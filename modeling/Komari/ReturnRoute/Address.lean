import Mathlib.Data.List.TakeDrop
import Mathlib.Data.List.TakeWhile
import Mathlib.Data.Nat.Bitwise

/-!
# Addresses and networks

What the rules use of packages `net` and `net/netip`.  The texts of addresses are read and written by
package `netip`; networks are addresses with masks.
-/

namespace Komari

namespace ReturnRoute

/-! ### Addresses -/

/-- `netip.Addr`: four bytes or sixteen, and a zone. -/
structure Addr where
  /-- `AsSlice`. -/
  bytes : List UInt8
  zone : String
  /-- An IPv4 or an IPv6 address. -/
  length_bytes : bytes.length = 4 ∨ bytes.length = 16
deriving DecidableEq

/-- `v4InV6Prefix`. -/
def v4InV6Front : List UInt8 := [0, 0, 0, 0, 0, 0, 0, 0, 0, 0, 0xff, 0xff]

/-- The address is an IPv4 address in sixteen bytes. -/
def IsMapped (bytes : List UInt8) : Prop := bytes.length = 16 ∧ bytes.take 12 = v4InV6Front

instance (bytes : List UInt8) : Decidable (IsMapped bytes) := inferInstanceAs (Decidable (_ ∧ _))

/-- `To4`. -/
def to4 (ip : List UInt8) : Option (List UInt8) :=
  if ip.length = 4 then some ip else if IsMapped ip then some (ip.drop 12) else none

/-- `Unmap`: the address inside a mapped one. -/
def Addr.unmap (a : Addr) : Addr :=
  if h : IsMapped a.bytes then ⟨a.bytes.drop 12, "", .inl (by rw [List.length_drop, h.1])⟩ else a

/-- `Is4`. -/
def Addr.is4 (a : Addr) : Bool := a.bytes.length = 4

/-- `(bytes[bit/8] >> (7 - uint(bit%8))) & 1`. -/
def branch (bytes : List UInt8) (bit : ℕ) : Bool :=
  (bytes.getD (bit / 8) 0).toNat.testBit (7 - bit % 8)

/-- The first bits, the most significant one first. -/
def firstBits (bytes : List UInt8) (n : ℕ) : List Bool := (List.range n).map (branch bytes)

/-- All bits of some bytes. -/
def bits (bytes : List UInt8) : List Bool := firstBits bytes (8 * bytes.length)

/-- `CIDRMask`, of so many bytes. -/
def cidrMask : ℕ → ℕ → List UInt8
  | _, 0 => []
  | ones, l + 1 =>
    if 8 ≤ ones then 0xff :: cidrMask (ones - 8) l
    else ~~~(0xff >>> UInt8.ofNat ones) :: cidrMask 0 l

/-- `Mask`, with a mask of so many ones. -/
def mask (bytes : List UInt8) (ones : ℕ) : List UInt8 :=
  List.zipWith (· &&& ·) bytes (cidrMask ones bytes.length)

theorem length_cidrMask (ones l : ℕ) : (cidrMask ones l).length = l := by
  induction l generalizing ones with
  | zero => rfl
  | succ l ih =>
    rw [cidrMask]
    split_ifs <;> simp [ih]

@[simp] theorem length_mask (bytes : List UInt8) (ones : ℕ) : (mask bytes ones).length = bytes.length := by
  rw [mask, List.length_zipWith, length_cidrMask, Nat.min_self]

/-- `net.IPNet`, whose mask is given by its ones. -/
structure IPNet where
  ip : List UInt8
  /-- The ones of `Mask`. -/
  ones : ℕ
deriving DecidableEq

/-- `networkNumberAndMask`. -/
def IPNet.number (n : IPNet) : List UInt8 × ℕ :=
  match to4 n.ip with
  | some ip => (ip, if n.ip.length = 4 then n.ones else n.ones - 96)
  | none => (n.ip, n.ones)

/-- The address is in the network. -/
def IPNet.contains (n : IPNet) (ip : List UInt8) : Bool :=
  let ip := (to4 ip).getD ip
  ip.length = n.number.1.length && mask n.number.1 n.number.2 = mask ip n.number.2

/-- `netip.Prefix`. -/
structure Prefix where
  addr : Addr
  bits : ℕ

/-- Without the bits behind the prefix. -/
def Prefix.masked (p : Prefix) : Prefix :=
  ⟨⟨mask p.addr.bytes p.bits, p.addr.zone, by rw [length_mask]; exact p.addr.length_bytes⟩, p.bits⟩

/-! ### Texts -/

/-- Package `netip`: the texts of addresses. -/
structure NetipPackage where
  parseAddr : String → Option Addr
  string : Addr → String
  /-- The text of an address is parsed. -/
  parseAddr_string : ∀ a, a.zone = "" → parseAddr (string a) = some a

/-- A number in decimal digits. -/
def decimal (digits : List Char) : Option ℕ :=
  if digits ≠ [] ∧ digits.all Char.isDigit then some (Nat.ofDigitChars 10 digits 0) else none

/-- A text before and after its first slash. -/
def cutFirst (s : String) : Option (String × List Char) :=
  if '/' ∈ s.toList then
    some (String.ofList (s.toList.takeWhile (· ≠ '/')), (s.toList.dropWhile (· ≠ '/')).drop 1)
  else none

/-- A text before and after its last slash. -/
def cutLast (s : String) : Option (String × List Char) :=
  if '/' ∈ s.toList then
    some (String.ofList ((s.toList.reverse.dropWhile (· ≠ '/')).drop 1).reverse,
      (s.toList.reverse.takeWhile (· ≠ '/')).reverse)
  else none

section

variable (netip : NetipPackage)

/-- `net.ParseCIDR`. -/
def parseCIDR (s : String) : Option IPNet := do
  let (addr, digits) ← cutFirst s
  let a ← netip.parseAddr addr
  if a.zone ≠ "" then none
  else
    let n ← decimal digits
    if 8 * a.bytes.length < n then none else some ⟨mask a.bytes n, n⟩

/-- `String` of a network whose address has four bytes or sixteen. -/
def IPNet.string (n : IPNet) : String :=
  (if h : n.number.1.length = 4 ∨ n.number.1.length = 16 then netip.string ⟨n.number.1, "", h⟩
    else "<nil>") ++ "/" ++ toString n.number.2

/-- `netip.ParsePrefix`. -/
def parsePrefix (s : String) : Option Prefix := do
  let (addr, digits) ← cutLast s
  let a ← netip.parseAddr addr
  if a.zone ≠ "" then none
  else if 1 < digits.length ∧ digits.head? = some '0' then none
  else
    let n ← decimal digits
    if 8 * a.bytes.length < n then none else some ⟨a, n⟩

end

/-! ### Bits -/

theorem branch_cons (b : UInt8) (bytes : List UInt8) (i : ℕ) :
    branch (b :: bytes) i = if i < 8 then b.toNat.testBit (7 - i) else branch bytes (i - 8) := by
  unfold branch
  split_ifs with hi
  · rw [Nat.div_eq_of_lt hi, Nat.mod_eq_of_lt hi]
    rfl
  · have hdiv : i / 8 = (i - 8) / 8 + 1 := by omega
    have hmod : i % 8 = (i - 8) % 8 := by omega
    rw [hdiv, hmod, List.getD_cons_succ]

theorem testBit_lastByte : ∀ n < 8, ∀ i < 8,
    (~~~((0xff : UInt8) >>> UInt8.ofNat n)).toNat.testBit (7 - i) = decide (i < n) := by
  decide

theorem testBit_fullByte : ∀ i < 8, (0xff : UInt8).toNat.testBit (7 - i) = true := by
  decide

/-- The ones of a mask are its first bits. -/
theorem branch_cidrMask (ones l i : ℕ) (hi : i < 8 * l) : branch (cidrMask ones l) i = decide (i < ones) := by
  induction l generalizing ones i with
  | zero => omega
  | succ l ih =>
    rw [cidrMask]
    split_ifs with hones
    · rw [branch_cons]
      split_ifs with hlt
      · rw [testBit_fullByte i hlt, decide_eq_true (by omega)]
      · rw [ih _ _ (by omega)]
        exact decide_eq_decide.mpr (by omega)
    · rw [branch_cons]
      split_ifs with hlt
      · exact testBit_lastByte ones (by omega) i hlt
      · rw [ih _ _ (by omega)]
        exact decide_eq_decide.mpr (by omega)

theorem branch_mask (bytes : List UInt8) (ones i : ℕ) (hi : i < 8 * bytes.length) :
    branch (mask bytes ones) i = (branch bytes i && decide (i < ones)) := by
  rw [← branch_cidrMask ones bytes.length i hi]
  have hlt : i / 8 < bytes.length := by omega
  have hmask : i / 8 < (mask bytes ones).length := by rwa [length_mask]
  have hcidr : i / 8 < (cidrMask ones bytes.length).length := by rwa [length_cidrMask]
  unfold branch
  rw [List.getD_eq_getElem _ _ hlt, List.getD_eq_getElem _ _ hmask, List.getD_eq_getElem _ _ hcidr]
  simp only [mask, List.getElem_zipWith, UInt8.toNat_and, Nat.testBit_and]

/-- Addresses of one length with the same bits are equal. -/
theorem eq_of_branch {bytes bytes' : List UInt8} (hlength : bytes.length = bytes'.length)
    (h : ∀ i < 8 * bytes.length, branch bytes i = branch bytes' i) : bytes = bytes' := by
  induction bytes generalizing bytes' with
  | nil => exact (List.length_eq_zero_iff.mp hlength.symm).symm
  | cons b bytes ih =>
    cases bytes' with
    | nil => cases hlength
    | cons b' bytes' =>
      have hbyte : b = b' := by
        refine UInt8.toNat_inj.mp (Nat.eq_of_testBit_eq fun j => ?_)
        by_cases hj : j < 8
        · have hbit := h (7 - j) (by rw [List.length_cons]; omega)
          rw [branch_cons, branch_cons, if_pos (by omega), if_pos (by omega)] at hbit
          rwa [show 7 - (7 - j) = j by omega] at hbit
        · have hpow : 2 ^ 8 ≤ 2 ^ j := Nat.pow_le_pow_right (by omega) (by omega)
          rw [Nat.testBit_lt_two_pow (b.toNat_lt.trans_le hpow),
            Nat.testBit_lt_two_pow (b'.toNat_lt.trans_le hpow)]
      have hrest : bytes = bytes' := by
        refine ih (Nat.succ.inj hlength) fun i hi => ?_
        have hbit := h (i + 8) (by rw [List.length_cons]; omega)
        rwa [branch_cons, branch_cons, if_neg (by omega), if_neg (by omega), Nat.add_sub_cancel] at hbit
      rw [hbyte, hrest]

@[simp] theorem length_firstBits (bytes : List UInt8) (n : ℕ) : (firstBits bytes n).length = n := by
  simp [firstBits]

theorem firstBits_eq_iff {bytes bytes' : List UInt8} {n : ℕ} :
    firstBits bytes n = firstBits bytes' n ↔ ∀ i < n, branch bytes i = branch bytes' i := by
  simp [firstBits, List.map_inj_left]

theorem mask_eq_mask_iff {bytes bytes' : List UInt8} (hlength : bytes.length = bytes'.length) {ones : ℕ}
    (hones : ones ≤ 8 * bytes.length) :
    mask bytes ones = mask bytes' ones ↔ firstBits bytes ones = firstBits bytes' ones := by
  rw [firstBits_eq_iff]
  constructor
  · intro h i hi
    have hbit : branch (mask bytes ones) i = branch (mask bytes' ones) i := by rw [h]
    rw [branch_mask _ _ _ (by omega), branch_mask _ _ _ (by omega), decide_eq_true hi, Bool.and_true,
      Bool.and_true] at hbit
    exact hbit
  · intro h
    refine eq_of_branch (by simp [hlength]) fun i hi => ?_
    rw [length_mask] at hi
    rw [branch_mask _ _ _ hi, branch_mask _ _ _ (by omega)]
    by_cases hlt : i < ones
    · rw [h i hlt]
    · rw [decide_eq_false hlt, Bool.and_false, Bool.and_false]

/-- The first bits of an address begin its bits. -/
theorem firstBits_prefix_iff {bytes bytes' : List UInt8} {n : ℕ} (hn : n ≤ 8 * bytes'.length) :
    firstBits bytes n <+: bits bytes' ↔ firstBits bytes n = firstBits bytes' n := by
  have htake : (bits bytes').take n = firstBits bytes' n := by
    rw [bits, firstBits, ← List.map_take, List.take_range, Nat.min_eq_left hn]
    rfl
  rw [List.prefix_iff_eq_take, length_firstBits, htake]

theorem branch_drop (bytes : List UInt8) (k i : ℕ) : branch (bytes.drop k) i = branch bytes (i + 8 * k) := by
  have hdiv : (i + 8 * k) / 8 = k + i / 8 := by omega
  have hmod : (i + 8 * k) % 8 = i % 8 := by omega
  rw [branch, branch, hdiv, hmod]
  simp [List.getD_eq_getElem?_getD, List.getElem?_drop]

/-! ### Networks -/

/-- A network as `ParseCIDR` makes it. -/
structure IPNet.WellFormed (n : IPNet) : Prop where
  length_ip : n.ip.length = 4 ∨ n.ip.length = 16
  /-- The mask is not longer. -/
  ones_le : n.ones ≤ 8 * n.ip.length
  masked : mask n.ip n.ones = n.ip

theorem mask_mask (bytes : List UInt8) (ones : ℕ) : mask (mask bytes ones) ones = mask bytes ones := by
  refine eq_of_branch (by simp) fun i hi => ?_
  simp only [length_mask] at hi
  rw [branch_mask _ _ _ (by rwa [length_mask]), branch_mask _ _ _ hi, Bool.and_assoc, Bool.and_self]

theorem wellFormed_of_parseCIDR {netip : NetipPackage} {s : String} {n : IPNet}
    (h : parseCIDR netip s = some n) : n.WellFormed := by
  simp only [parseCIDR, Option.bind_eq_bind, Option.bind_eq_some_iff] at h
  obtain ⟨⟨addr, digits⟩, -, a, -, h⟩ := h
  split_ifs at h with hzone
  obtain ⟨ones, -, h⟩ := Option.bind_eq_some_iff.mp h
  split_ifs at h with hones
  cases h
  exact ⟨by simpa using a.length_bytes, by simpa using not_lt.mp hones, mask_mask _ _⟩

/-- A network of IPv4 addresses in sixteen bytes has at least 96 ones. -/
theorem IPNet.WellFormed.ones_of_isMapped {n : IPNet} (h : n.WellFormed) (hmapped : IsMapped n.ip) :
    96 ≤ n.ones := by
  have hbyte : n.ip.getD 11 0 = 0xff := by
    have hfront := congrArg (fun l => l.getD 11 0) hmapped.2
    simpa [List.getD_eq_getElem?_getD, List.getElem?_take, v4InV6Front] using hfront
  have hbit : branch n.ip 95 = true := by
    show (n.ip.getD 11 0).toNat.testBit 0 = true
    rw [hbyte]
    rfl
  have hmask := branch_mask n.ip n.ones 95 (by rw [hmapped.1]; omega)
  rw [h.masked, hbit, Bool.true_and] at hmask
  exact of_decide_eq_true hmask.symm

/-- The number and the mask of a network: four bytes or sixteen, but no IPv4 address in sixteen bytes. -/
theorem IPNet.WellFormed.number {n : IPNet} (h : n.WellFormed) :
    (n.number.1.length = 4 ∨ n.number.1.length = 16) ∧ n.number.2 ≤ 8 * n.number.1.length ∧
      mask n.number.1 n.number.2 = n.number.1 ∧ ¬IsMapped n.number.1 := by
  have hle := h.ones_le
  unfold IPNet.number to4
  by_cases hfour : n.ip.length = 4
  · rw [if_pos hfour]
    simp only [hfour, if_true]
    exact ⟨.inl trivial, by omega, h.masked, fun hmapped => by rw [hmapped.1] at hfour; cases hfour⟩
  · rw [if_neg hfour]
    by_cases hmapped : IsMapped n.ip
    · have hones := h.ones_of_isMapped hmapped
      have hlength : (n.ip.drop 12).length = 4 := by rw [List.length_drop, hmapped.1]
      rw [if_pos hmapped]
      simp only [hfour, if_false]
      refine ⟨.inl hlength, by rw [hlength]; rw [hmapped.1] at hle; omega, ?_, fun hmapped' => ?_⟩
      · refine eq_of_branch (by simp) fun i hi => ?_
        rw [length_mask, hlength] at hi
        rw [branch_mask _ _ _ (by rw [hlength]; exact hi), branch_drop]
        conv_rhs => rw [← h.masked]
        rw [branch_mask _ _ _ (by rw [hmapped.1]; omega)]
        exact congrArg _ (decide_eq_decide.mpr (by omega))
      · rw [hmapped'.1] at hlength
        cases hlength
    · rw [if_neg hmapped]
      exact ⟨h.length_ip, hle, h.masked, hmapped⟩

/-- **A network contains the addresses that begin with its bits.** -/
theorem IPNet.contains_iff {n : IPNet} (h : n.WellFormed) (ip : List UInt8) :
    n.contains ip = true ↔ ((to4 ip).getD ip).length = n.number.1.length ∧
      firstBits n.number.1 n.number.2 <+: bits ((to4 ip).getD ip) := by
  obtain ⟨-, hones, -, -⟩ := h.number
  rw [IPNet.contains, Bool.and_eq_true, decide_eq_true_eq, decide_eq_true_eq]
  refine and_congr_right fun hlength => ?_
  rw [mask_eq_mask_iff hlength.symm hones, firstBits_prefix_iff (by rw [hlength]; exact hones)]

/-! ### Texts of networks -/

theorem decimal_toString : ∀ n ≤ 128, decimal (toString n).toList = some n ∧
    ¬(1 < (toString n).toList.length ∧ (toString n).toList.head? = some '0') ∧
      '/' ∉ (toString n).toList := by
  decide

theorem cutLast_append (addr : String) {digits : List Char} (h : '/' ∉ digits) :
    cutLast (addr ++ "/" ++ String.ofList digits) = some (addr, digits) := by
  have hlist : (addr ++ "/" ++ String.ofList digits).toList = addr.toList ++ '/' :: digits := by
    simp
  have hreverse : (addr.toList ++ '/' :: digits).reverse =
      digits.reverse ++ '/' :: addr.toList.reverse := by
    simp
  have hall : ∀ c ∈ digits.reverse, decide (c ≠ '/') = true := by
    intro c hc
    simp only [decide_eq_true_eq]
    rintro rfl
    exact h (List.mem_reverse.mp hc)
  rw [cutLast, hlist, if_pos (by simp), hreverse, List.takeWhile_append_of_pos hall,
    List.dropWhile_append_of_pos hall]
  simp

/-- **The text of a network gives its bits back.** -/
theorem parsePrefix_string (netip : NetipPackage) {n : IPNet} (h : n.WellFormed) :
    ∃ a : Addr, a.bytes = n.number.1 ∧ parsePrefix netip (n.string netip) = some ⟨a, n.number.2⟩ := by
  obtain ⟨hlength, hones, -, -⟩ := h.number
  have hle : n.number.2 ≤ 128 := by omega
  obtain ⟨hdecimal, hzero, hslash⟩ := decimal_toString _ hle
  refine ⟨⟨n.number.1, "", hlength⟩, rfl, ?_⟩
  have hcut := cutLast_append (netip.string ⟨n.number.1, "", hlength⟩) hslash
  rw [String.ofList_toList] at hcut
  have hparse := netip.parseAddr_string ⟨n.number.1, "", hlength⟩ rfl
  rw [parsePrefix, IPNet.string, dif_pos hlength, hcut]
  simp only [Option.bind_eq_bind, Option.bind_some, hparse, hdecimal, hzero, ne_eq, not_true_eq_false,
    if_false, if_neg (not_lt.mpr hones)]

/-- Networks with the same text have the same bits. -/
theorem number_eq_of_string_eq {netip : NetipPackage} {n n' : IPNet} (h : n.WellFormed) (h' : n'.WellFormed)
    (heq : n.string netip = n'.string netip) : n.number = n'.number := by
  obtain ⟨a, ha, hparse⟩ := parsePrefix_string netip h
  obtain ⟨a', ha', hparse'⟩ := parsePrefix_string netip h'
  rw [heq, hparse'] at hparse
  obtain ⟨haddr, hbits⟩ := Prefix.mk.inj (Option.some.inj hparse)
  exact Prod.ext (ha.symm.trans ((congrArg Addr.bytes haddr).symm.trans ha')) hbits.symm

end ReturnRoute

end Komari
