import Komari.Rpc.Wildcard
import Komari.Utf8.Pieces
import Mathlib

/-!
# Permission of calls

A rule gives the names that match its pattern the least role that may call them. Of all rules that match,
the most specific one decides, and of equally specific ones the strictest.

* `follows` : what the rules promise for every name.
-/

namespace Komari

namespace Rpc

open Glob (Matches)
open Utf8 (Piece bytes pieces)

/-! ### Roles -/

def roleGuest : String := "guest"
def roleClient : String := "client"
def roleAdmin : String := "admin"

/-- The roles that a rule may name. -/
def roles : List String := [roleGuest, roleClient, roleAdmin]

/-- The level of a role; an unknown one is a guest. -/
def levelOf (role : String) : ℕ :=
  if role = roleGuest then 0 else if role = roleClient then 1 else if role = roleAdmin then 2 else 0

/-- Who calls, and what they may do. -/
inductive PrincipalType where
  | anonymous | agent | user | apiKey
  deriving DecidableEq

/-- A caller and its roles. -/
structure Principal where
  type : PrincipalType
  roles : List String
  deriving DecidableEq

/-- A guest. -/
def newAnonymousPrincipal : Principal := ⟨.anonymous, [roleGuest]⟩

/-- With one role. -/
def principalFromRole (role : String) : Principal :=
  if role = roleClient then ⟨.agent, [roleClient]⟩
  else if role = roleAdmin then ⟨.user, [roleAdmin]⟩
  else newAnonymousPrincipal

/-- One of its roles. -/
def Principal.hasRole (p : Principal) (role : String) : Bool := p.roles.any (· == role)

/-! ### Rules -/

/-- A pattern and the role that it asks for. -/
structure AclRule where
  pattern : List UInt8
  minRole : String
  specificity : ℕ
  hasWildcard : Bool
  deriving DecidableEq

/-- How specific a pattern is, and whether it has a wildcard: without one it comes before all others. -/
def computeSpecificity (pattern : List UInt8) : ℕ × Bool :=
  let literal := (pieces pattern).countP (· ≠ .char '*')
  let hasWildcard := (pieces pattern).any (· = .char '*')
  if hasWildcard then (literal, true) else (2 ^ 20, false)

/-- The rule of a declaration. -/
def newRule (pattern : List UInt8) (minRole : String) : AclRule :=
  ⟨pattern, minRole, (computeSpecificity pattern).1, (computeSpecificity pattern).2⟩

/-- Declare a rule, in place of the one that has its pattern. -/
def allow (aclList : List AclRule) (pattern : List UInt8) (minRole : String) : List AclRule :=
  match aclList with
  | [] => [newRule pattern minRole]
  | r :: rest =>
    if r.pattern = pattern then newRule pattern minRole :: rest
    else r :: allow rest pattern minRole

/-- One of the three roles for the names of a pattern. -/
structure Declaration where
  pattern : List UInt8
  minRole : String
  known : minRole ∈ roles
  deriving DecidableEq

/-- The role of a namespace. -/
def registerNamespace (aclList : List AclRule) (ns : List UInt8) (requiredRole : String) : List AclRule :=
  allow aclList (ns ++ bytes ":*") requiredRole

/-- The rules that are there from the start. -/
def builtin : List Declaration :=
  [⟨bytes "*", roleAdmin, by decide⟩, ⟨bytes "common:*", roleGuest, by decide⟩,
    ⟨bytes "guest:*", roleGuest, by decide⟩, ⟨bytes "rpc.*", roleGuest, by decide⟩,
    ⟨bytes "rpc:*", roleGuest, by decide⟩, ⟨bytes "client:*", roleClient, by decide⟩,
    ⟨bytes "admin:*", roleAdmin, by decide⟩]

/-- The rules after some declarations. -/
def aclAfter (ds : List Declaration) : List AclRule :=
  ds.foldl (fun acl d => allow acl d.pattern d.minRole) []

/-! ### The role a call needs -/

/-- The name before the colon. -/
def defaultNamespace : List UInt8 := bytes "common"

def colon : UInt8 := 0x3a

/-- The name that is matched: a bare one is in the default namespace. -/
def fullName (method : List UInt8) : List UInt8 :=
  if colon ∉ method ∧ ¬bytes "rpc." <+: method then defaultNamespace ++ colon :: method else method

/-- The rule in the lead, while the rules are gone through. -/
structure Best where
  bestSpec : ℤ
  bestRole : String
  matched : Bool

/-- Looks at one more rule. -/
def Best.next (method : List UInt8) (best : Best) (r : AclRule) : Best :=
  if wildcardMatch r.pattern method = false then best
  else if best.bestSpec < r.specificity ∨
      ((r.specificity : ℤ) = best.bestSpec ∧ levelOf best.bestRole < levelOf r.minRole) then
    ⟨r.specificity, r.minRole, true⟩
  else best

/-- The role of the most specific rule. -/
def resolveMinRole (aclList : List AclRule) (method : List UInt8) : String :=
  let best := aclList.foldl (Best.next (fullName method)) ⟨-1, roleAdmin, false⟩
  if best.matched then best.bestRole else roleAdmin

/-- The role of the best rule. -/
def requiredRole (aclList : List AclRule) (method : List UInt8) : String := resolveMinRole aclList method

/-- The caller holds the role, or none is asked for. -/
def checkPrincipal (aclList : List AclRule) (p : Option Principal) (method : List UInt8) : Bool :=
  let p := p.getD newAnonymousPrincipal
  let min := resolveMinRole aclList method
  if min = roleGuest then true else p.hasRole min

/-- The rule of a method is met. -/
def checkPermission (aclList : List AclRule) (group : String) (method : List UInt8) : Bool :=
  checkPrincipal aclList (some (principalFromRole group)) method

/-! ### What the declarations say -/

/-- The role that was declared last for a pattern. -/
def lastRole (ds : List Declaration) (pattern : List UInt8) : Option String :=
  (ds.reverse.find? (·.pattern = pattern)).map (·.minRole)

/-- A rule that decides: no other one that matches is more specific, or as specific and stricter. -/
structure Decides (rules : List UInt8 → Option String) (matching : List UInt8 → Prop)
    (pattern : List UInt8) (role : String) : Prop where
  declared : rules pattern = some role
  hit : matching pattern
  first : ∀ pattern' role', rules pattern' = some role' → matching pattern' →
    (computeSpecificity pattern').1 < (computeSpecificity pattern).1 ∨
      (computeSpecificity pattern').1 = (computeSpecificity pattern).1 ∧ levelOf role' ≤ levelOf role

/-- The role that the rules require: that of a rule that decides, or admin if none matches. -/
def IsRequired (rules : List UInt8 → Option String) (matching : List UInt8 → Prop) (role : String) : Prop :=
  (∃ pattern, Decides rules matching pattern role) ∨
    (∀ pattern role', rules pattern = some role' → ¬matching pattern) ∧ role = roleAdmin

theorem lastRole_append_singleton (ds : List Declaration) (d : Declaration) (pattern : List UInt8) :
    lastRole (ds ++ [d]) pattern = if d.pattern = pattern then some d.minRole else lastRole ds pattern := by
  by_cases h : d.pattern = pattern <;> simp [lastRole, h]

variable {pattern : List UInt8}

theorem lastRole_known {ds : List Declaration} {role : String}
    (h : lastRole ds pattern = some role) : role ∈ roles := by
  obtain ⟨d, -, rfl⟩ := Option.map_eq_some_iff.mp h
  exact d.known

theorem levelOf_inj : ∀ a ∈ roles, ∀ b ∈ roles, levelOf a = levelOf b → a = b := by decide

variable {rules : List UInt8 → Option String}

theorem isRequired_unique {matching : List UInt8 → Prop}
    (hknown : ∀ pattern role, rules pattern = some role → role ∈ roles) {a b : String}
    (ha : IsRequired rules matching a) (hb : IsRequired rules matching b) : a = b := by
  rcases ha with ⟨p, hp⟩ | ⟨hnone, rfl⟩ <;> rcases hb with ⟨q, hq⟩ | ⟨hnone', rfl⟩
  · have hpq := hp.first q b hq.declared hq.hit
    have hqp := hq.first p a hp.declared hp.hit
    exact levelOf_inj a (hknown p a hp.declared) b (hknown q b hq.declared) (by omega)
  · exact absurd hp.hit (hnone' p a hp.declared)
  · exact absurd hq.hit (hnone q b hq.declared)
  · rfl

theorem lastRole_append (ds ds' : List Declaration) (pattern : List UInt8) :
    lastRole (ds ++ ds') pattern = (lastRole ds' pattern).or (lastRole ds pattern) := by
  simp [lastRole, List.find?_append, Option.map_or]

theorem lastRole_eq_some_iff {ds : List Declaration} (hnd : (ds.map (·.pattern)).Nodup)
    {role : String} :
    lastRole ds pattern = some role ↔ ∃ d ∈ ds, d.pattern = pattern ∧ d.minRole = role := by
  constructor
  · intro h
    obtain ⟨d, hfind, rfl⟩ := Option.map_eq_some_iff.mp h
    exact ⟨d, List.mem_reverse.mp (List.mem_of_find?_eq_some hfind), by simpa using List.find?_some hfind, rfl⟩
  · rintro ⟨d, hd, rfl, rfl⟩
    obtain ⟨e, he⟩ : ∃ e, ds.reverse.find? (·.pattern = d.pattern) = some e := by
      rw [← Option.isSome_iff_exists, List.find?_isSome]
      exact ⟨d, List.mem_reverse.mpr hd, by simp⟩
    have hpattern : e.pattern = d.pattern := by simpa using List.find?_some he
    have hmem : e ∈ ds := List.mem_reverse.mp (List.mem_of_find?_eq_some he)
    rw [lastRole, he, List.inj_on_of_nodup_map hnd hmem hd hpattern]
    rfl

/-- Declarations of different patterns may come in any order. -/
theorem lastRole_perm {ds ds' : List Declaration} (h : ds.Perm ds')
    (hnd : (ds.map (·.pattern)).Nodup) : lastRole ds = lastRole ds' := by
  funext pattern
  have hnd' : (ds'.map (·.pattern)).Nodup := (h.map _).nodup_iff.mp hnd
  refine Option.ext fun role => ?_
  rw [lastRole_eq_some_iff hnd, lastRole_eq_some_iff hnd']
  simp only [h.mem_iff]

/-! ### The list of rules -/

theorem mem_allow {acl : List AclRule} (hnd : (acl.map (·.pattern)).Nodup)
    {role : String} {r : AclRule} :
    r ∈ allow acl pattern role ↔ r = newRule pattern role ∨ r ∈ acl ∧ r.pattern ≠ pattern := by
  induction acl with
  | nil => simp [allow]
  | cons q acl ih =>
    rw [List.map_cons, List.nodup_cons] at hnd
    have hq : ∀ r ∈ acl, r.pattern ≠ q.pattern := fun r hr h =>
      hnd.1 (List.mem_map.mpr ⟨r, hr, h⟩)
    by_cases h : q.pattern = pattern
    · rw [allow, if_pos h, List.mem_cons, List.mem_cons]
      constructor
      · rintro (hr | hr)
        · exact Or.inl hr
        · exact Or.inr ⟨Or.inr hr, h ▸ hq r hr⟩
      · rintro (hr | ⟨rfl | hr, hne⟩)
        · exact Or.inl hr
        · exact absurd h hne
        · exact Or.inr hr
    · rw [allow, if_neg h, List.mem_cons, List.mem_cons, ih hnd.2]
      constructor
      · rintro (rfl | hr | ⟨hr, hne⟩)
        · exact Or.inr ⟨Or.inl rfl, h⟩
        · exact Or.inl hr
        · exact Or.inr ⟨Or.inr hr, hne⟩
      · rintro (hr | ⟨rfl | hr, hne⟩)
        · exact Or.inr (Or.inl hr)
        · exact Or.inl rfl
        · exact Or.inr (Or.inr ⟨hr, hne⟩)

theorem nodup_allow {acl : List AclRule} (hnd : (acl.map (·.pattern)).Nodup) (pattern : List UInt8)
    (role : String) : ((allow acl pattern role).map (·.pattern)).Nodup := by
  induction acl with
  | nil => simp [allow]
  | cons q acl ih =>
    have hnd' := hnd
    rw [List.map_cons, List.nodup_cons] at hnd
    by_cases h : q.pattern = pattern
    · rw [allow, if_pos h, List.map_cons]
      rw [List.map_cons, h] at hnd'
      exact hnd'
    · rw [allow, if_neg h, List.map_cons, List.nodup_cons]
      refine ⟨fun hmem => ?_, ih hnd.2⟩
      obtain ⟨r, hr, heq⟩ := List.mem_map.mp hmem
      rcases (mem_allow hnd.2).mp hr with rfl | ⟨hr, -⟩
      · exact h heq.symm
      · exact hnd.1 (List.mem_map.mpr ⟨r, hr, heq⟩)

/-- The list has one rule for each pattern, with the role declared last. -/
structure Lists (acl : List AclRule) (rules : List UInt8 → Option String) : Prop where
  nodup : (acl.map (·.pattern)).Nodup
  mem_iff : ∀ r, r ∈ acl ↔ rules r.pattern = some r.minRole ∧ r = newRule r.pattern r.minRole

theorem lists_aclAfter (ds : List Declaration) : Lists (aclAfter ds) (lastRole ds) := by
  induction ds using List.reverseRecOn with
  | nil => exact ⟨List.nodup_nil, fun r => by simp [aclAfter, lastRole]⟩
  | append_singleton ds d ih =>
    have hstep : aclAfter (ds ++ [d]) = allow (aclAfter ds) d.pattern d.minRole := by
      simp [aclAfter]
    refine ⟨hstep ▸ nodup_allow ih.nodup _ _, fun r => ?_⟩
    rw [hstep, mem_allow ih.nodup, ih.mem_iff, lastRole_append_singleton]
    by_cases h : d.pattern = r.pattern
    · rw [if_pos h, Option.some_inj]
      constructor
      · rintro (rfl | ⟨-, hne⟩)
        · exact ⟨rfl, rfl⟩
        · exact absurd h.symm hne
      · rintro ⟨hrole, hr⟩
        exact Or.inl (by rw [h, hrole]; exact hr)
    · rw [if_neg h]
      constructor
      · rintro (rfl | ⟨hr, -⟩)
        · exact absurd rfl h
        · exact hr
      · exact fun hr => Or.inr ⟨hr, fun heq => h heq.symm⟩

/-! ### The rule in the lead -/

/-- What is known of the rule in the lead: it is the first among the rules seen that match. -/
def Leads (name : List UInt8) (seen : List AclRule) (best : Best) : Prop :=
  (best = ⟨-1, roleAdmin, false⟩ ∧ ∀ r ∈ seen, wildcardMatch r.pattern name = false) ∨
    ∃ r ∈ seen, wildcardMatch r.pattern name = true ∧ best = ⟨r.specificity, r.minRole, true⟩ ∧
      ∀ q ∈ seen, wildcardMatch q.pattern name = true →
        q.specificity < r.specificity ∨ q.specificity = r.specificity ∧ levelOf q.minRole ≤ levelOf r.minRole

theorem leads_next {name : List UInt8} {seen : List AclRule} {best : Best} (h : Leads name seen best)
    (r : AclRule) : Leads name (seen ++ [r]) (best.next name r) := by
  cases hr : wildcardMatch r.pattern name with
  | false =>
    rw [Best.next, if_pos hr]
    rcases h with ⟨rfl, hnone⟩ | ⟨q, hq, hqm, rfl, hfirst⟩
    · refine Or.inl ⟨rfl, fun q hq => ?_⟩
      rcases List.mem_append.mp hq with hq | hq
      · exact hnone q hq
      · rwa [List.mem_singleton.mp hq]
    · refine Or.inr ⟨q, List.mem_append_left _ hq, hqm, rfl, fun q' hq' hqm' => ?_⟩
      rcases List.mem_append.mp hq' with hq' | hq'
      · exact hfirst q' hq' hqm'
      · rw [List.mem_singleton.mp hq', hr] at hqm'
        cases hqm'
  | true =>
    rw [Best.next, if_neg (by rw [hr]; decide)]
    rcases h with ⟨rfl, hnone⟩ | ⟨q, hq, hqm, rfl, hfirst⟩
    · rw [if_pos (Or.inl (by simp only; omega))]
      refine Or.inr ⟨r, by simp, hr, rfl, fun q' hq' hqm' => ?_⟩
      rcases List.mem_append.mp hq' with hq' | hq'
      · rw [hnone q' hq'] at hqm'
        cases hqm'
      · exact Or.inr ⟨by rw [List.mem_singleton.mp hq'], by rw [List.mem_singleton.mp hq']⟩
    · simp only [Int.ofNat_lt, Int.natCast_inj]
      by_cases hnew : q.specificity < r.specificity ∨
          r.specificity = q.specificity ∧ levelOf q.minRole < levelOf r.minRole
      · rw [if_pos hnew]
        refine Or.inr ⟨r, by simp, hr, rfl, fun q' hq' hqm' => ?_⟩
        rcases List.mem_append.mp hq' with hq' | hq'
        · have := hfirst q' hq' hqm'
          omega
        · exact Or.inr ⟨by rw [List.mem_singleton.mp hq'], by rw [List.mem_singleton.mp hq']⟩
      · rw [if_neg hnew]
        refine Or.inr ⟨q, List.mem_append_left _ hq, hqm, rfl, fun q' hq' hqm' => ?_⟩
        rcases List.mem_append.mp hq' with hq' | hq'
        · exact hfirst q' hq' hqm'
        · rw [List.mem_singleton.mp hq']
          omega

theorem leads_foldl (name : List UInt8) (acl : List AclRule) :
    Leads name acl (acl.foldl (Best.next name) ⟨-1, roleAdmin, false⟩) := by
  induction acl using List.reverseRecOn with
  | nil => exact Or.inl ⟨rfl, by simp⟩
  | append_singleton acl r ih =>
    rw [List.foldl_append]
    exact leads_next ih r

/-- **The role is that of the rule that decides.** -/
theorem isRequired_resolveMinRole {acl : List AclRule} (h : Lists acl rules) (method : List UInt8) :
    IsRequired rules (fun pattern => wildcardMatch pattern (fullName method) = true)
      (resolveMinRole acl method) := by
  have hmem : ∀ pattern role, rules pattern = some role → newRule pattern role ∈ acl :=
    fun pattern role hrule => (h.mem_iff _).mpr ⟨hrule, rfl⟩
  rw [resolveMinRole]
  rcases leads_foldl (fullName method) acl with ⟨hbest, hnone⟩ | ⟨r, hr, hmatch, hbest, hfirst⟩
  · rw [hbest]
    refine Or.inr ⟨fun pattern role hrule hmatch => ?_, rfl⟩
    have hnot := hnone _ (hmem pattern role hrule)
    exact absurd (hnot.symm.trans hmatch) (by decide)
  · rw [hbest]
    obtain ⟨hrule, heq⟩ := (h.mem_iff r).mp hr
    have hspec : r.specificity = (computeSpecificity r.pattern).1 := congrArg AclRule.specificity heq
    refine Or.inl ⟨r.pattern, hrule, hmatch, fun pattern role hrule' hmatch' => ?_⟩
    rw [← hspec]
    exact hfirst _ (hmem pattern role hrule') hmatch'

/-! ### The pattern that is the name -/

theorem star_eq_encode : String.utf8EncodeChar '*' = [star] := by decide

/-- A character is the star, or none of its bytes is. -/
theorem star_or_not_mem (c : Char) : c = '*' ∨ star ∉ String.utf8EncodeChar c := by
  rcases Utf8.encode_ascii_or_high c with ⟨b, hb, rfl⟩ | ⟨-, hhigh⟩
  · rw [Utf8.encode_ascii hb, List.mem_singleton]
    by_cases h : star = b
    · exact Or.inl (by rw [← h]; decide)
    · exact Or.inr h
  · refine Or.inr fun hmem => ?_
    exact absurd (hhigh star hmem) (by decide)

theorem mem_pieces_star_iff (s : List UInt8) : Piece.char '*' ∈ pieces s ↔ star ∈ s := by
  induction s using Utf8.pieces_induction with
  | nil => simp
  | char c s ih =>
    rw [Utf8.pieces_char_append, List.mem_cons, List.mem_append, ih]
    rcases star_or_not_mem c with rfl | h
    · simp [star_eq_encode]
    · have hc : c ≠ '*' := by
        rintro rfl
        exact h (by simp [star_eq_encode])
      simp [h, Ne.symm hc]
  | stray b s hb ih =>
    have hne : star ≠ b := fun h => absurd (h ▸ hb.high) (by decide)
    rw [Utf8.pieces_stray hb, List.mem_cons, List.mem_cons, ih]
    simp [hne]

/-- A pattern has no more characters other than the star than bytes. -/
theorem countP_pieces_le (s : List UInt8) :
    (pieces s).countP (· ≠ .char '*') ≤ s.countP (· ≠ star) := by
  induction s using Utf8.pieces_induction with
  | nil => simp
  | char c s ih =>
    rw [Utf8.pieces_char_append, List.countP_cons, List.countP_append]
    rcases star_or_not_mem c with rfl | h
    · simpa using ih.trans (Nat.le_add_left _ _)
    · have hpos : 0 < (String.utf8EncodeChar c).countP (· ≠ star) := by
        obtain ⟨b, t, hbt⟩ := List.exists_cons_of_ne_nil (Utf8.encode_ne_nil c)
        rw [List.countP_pos_iff]
        refine ⟨b, by simp [hbt], ?_⟩
        have hb : star ≠ b := fun heq => h (by simp [hbt, heq])
        simpa using Ne.symm hb
      split_ifs <;> omega
  | stray b s hb ih =>
    have hne : b ≠ star := fun h => absurd (h ▸ hb.high) (by decide)
    rw [Utf8.pieces_stray hb, List.countP_cons, List.countP_cons]
    simpa [hne] using ih

theorem computeSpecificity_of_not_mem (h : star ∉ pattern) :
    (computeSpecificity pattern).1 = 2 ^ 20 := by
  have hnone : (pieces pattern).any (· = .char '*') = false := by
    rw [List.any_eq_false]
    intro p hp
    have hne : p ≠ .char '*' := fun heq => h ((mem_pieces_star_iff pattern).mp (heq ▸ hp))
    simpa using hne
  simp [computeSpecificity, hnone]

theorem computeSpecificity_of_mem (h : star ∈ pattern) :
    (computeSpecificity pattern).1 = (pieces pattern).countP (· ≠ .char '*') := by
  have hsome : (pieces pattern).any (· = .char '*') = true := by
    rw [List.any_eq_true]
    exact ⟨.char '*', (mem_pieces_star_iff pattern).mpr h, by simp⟩
  simp [computeSpecificity, hsome]

/-- A rule for exactly the name decides, if the name has no star and less than 2²⁰ bytes. -/
theorem decides_self {name : List UInt8} {role : String}
    (hstar : star ∉ name) (hlen : name.length < 2 ^ 20) (h : rules name = some role) :
    Decides rules (Matches star · name) name role := by
  refine ⟨h, Glob.matches_self hstar, fun pattern role' hrule hmatch => ?_⟩
  rw [computeSpecificity_of_not_mem hstar]
  by_cases hp : star ∈ pattern
  · rw [computeSpecificity_of_mem hp]
    have h₁ := countP_pieces_le pattern
    have h₂ := hmatch.literals_le
    have h₃ : name.countP (· ≠ star) ≤ name.length := List.countP_le_length
    omega
  · obtain rfl := (Glob.matches_iff_eq hp).mp hmatch
    rw [h, Option.some_inj] at hrule
    subst hrule
    exact Or.inr ⟨computeSpecificity_of_not_mem hp, le_rfl⟩

/-! ### Every name -/

/-- The role that a name needs after some declarations. -/
def requiredAfter (ds : List Declaration) (method : List UInt8) : String :=
  requiredRole (aclAfter (builtin ++ ds)) method

/-- What the rules promise for a name. -/
structure Follows (method : List UInt8) : Prop where
  matcher : star ∉ method.dropLast → ∀ pattern,
    wildcardMatch pattern method = true ↔ Matches star pattern method
  required : star ∉ method.dropLast → ∀ ds,
    IsRequired (lastRole (builtin ++ ds)) (Matches star · (fullName method)) (requiredAfter ds method)
  order : ∀ ds ds', (∀ pattern, lastRole ds pattern = lastRole ds' pattern) →
    requiredAfter ds method = requiredAfter ds' method
  reorder : ∀ ds ds' : List Declaration, ds.Perm ds' → (ds.map (·.pattern)).Nodup →
    requiredAfter ds method = requiredAfter ds' method
  exact : star ∉ method → (fullName method).length < 2 ^ 20 → ∀ ds role,
    lastRole (builtin ++ ds) (fullName method) = some role → requiredAfter ds method = role
  granted : ∀ ds (p : Option Principal),
    checkPrincipal (aclAfter (builtin ++ ds)) p method = true ↔
      requiredAfter ds method = roleGuest ∨ requiredAfter ds method ∈ (p.getD newAnonymousPrincipal).roles

theorem star_not_mem_fullName {method : List UInt8} (h : star ∉ method) : star ∉ fullName method := by
  have hcommon : star ∉ defaultNamespace := by decide
  have hcolon : star ≠ colon := by decide
  rw [fullName]
  split_ifs
  · simp [hcommon, hcolon, h]
  · exact h

theorem star_not_mem_dropLast_fullName {method : List UInt8} (h : star ∉ method.dropLast) :
    star ∉ (fullName method).dropLast := by
  have hcommon : star ∉ defaultNamespace := by decide
  have hcolon : star ≠ colon := by decide
  rw [fullName]
  split_ifs
  · cases method with
    | nil => decide
    | cons b s => simp [List.dropLast_append_of_ne_nil, List.dropLast_cons_of_ne_nil, hcommon, hcolon, h]
  · exact h

theorem isRequired_requiredAfter (ds : List Declaration) (method : List UInt8) :
    IsRequired (lastRole (builtin ++ ds)) (fun pattern => wildcardMatch pattern (fullName method) = true)
      (requiredAfter ds method) :=
  isRequired_resolveMinRole (lists_aclAfter _) method

theorem requiredAfter_congr {ds ds' : List Declaration} {method : List UInt8}
    (h : ∀ pattern, wildcardMatch pattern (fullName method) = true →
      lastRole (builtin ++ ds) pattern = lastRole (builtin ++ ds') pattern) :
    requiredAfter ds method = requiredAfter ds' method := by
  refine isRequired_unique (fun _ _ => lastRole_known) (isRequired_requiredAfter ds method) ?_
  rcases isRequired_requiredAfter ds' method with ⟨p, hp⟩ | ⟨hnone, hadmin⟩
  · exact Or.inl ⟨p, (h p hp.hit).trans hp.declared, hp.hit, fun q role hq hmatch =>
      hp.first q role ((h q hmatch).symm.trans hq) hmatch⟩
  · exact Or.inr ⟨fun q role hq hmatch => hnone q role ((h q hmatch).symm.trans hq) hmatch, hadmin⟩

theorem requiredAfter_order {ds ds' : List Declaration} (h : ∀ pattern, lastRole ds pattern = lastRole ds' pattern)
    (method : List UInt8) : requiredAfter ds method = requiredAfter ds' method :=
  requiredAfter_congr fun pattern _ => by rw [lastRole_append, lastRole_append, h pattern]

theorem hasRole_iff (p : Principal) (role : String) : p.hasRole role = true ↔ role ∈ p.roles := by
  simp [Principal.hasRole]

/-- **What the rules promise for every name.** -/
theorem follows (method : List UInt8) : Follows method := by
  have hrequired : star ∉ method.dropLast → ∀ ds, IsRequired (lastRole (builtin ++ ds))
      (Matches star · (fullName method)) (requiredAfter ds method) := by
    intro h ds
    have := isRequired_requiredAfter ds method
    simpa only [wildcardMatch_iff_matches (star_not_mem_dropLast_fullName h)] using this
  refine ⟨fun h pattern => wildcardMatch_iff_matches h pattern, hrequired,
    fun ds ds' h => requiredAfter_order h method, fun ds ds' h hnd => ?_, fun hstar hlen ds role h => ?_,
    fun ds p => ?_⟩
  · exact requiredAfter_order (fun pattern => by rw [lastRole_perm h hnd]) method
  · have hself : IsRequired (lastRole (builtin ++ ds)) (Matches star · (fullName method)) role :=
      Or.inl ⟨_, decides_self (star_not_mem_fullName hstar) hlen h⟩
    have hdrop : star ∉ method.dropLast := fun hmem => hstar (List.mem_of_mem_dropLast hmem)
    exact isRequired_unique (fun _ _ => lastRole_known) (hrequired hdrop ds) hself
  · rw [checkPrincipal, requiredAfter, requiredRole]
    by_cases hguest : resolveMinRole (aclAfter (builtin ++ ds)) method = roleGuest
    · simp [hguest]
    · simp [hguest, hasRole_iff]

/-! ### A bare name -/

/-- The name `ping`, without a namespace. -/
def ping : List UInt8 := bytes "ping"

/-- A rule for the bare name is never asked. -/
theorem requiredAfter_bare (d : Declaration) (h : d.pattern = ping) :
    requiredAfter [d] ping = requiredAfter [] ping := by
  refine requiredAfter_congr fun pattern hmatch => ?_
  have hne : d.pattern ≠ pattern := by
    rintro rfl
    rw [h, wildcardMatch_iff_matches (by decide), Glob.matches_iff_eq (by decide)] at hmatch
    exact absurd hmatch (by decide)
  rw [lastRole_append_singleton, if_neg hne, List.append_nil]

/-- A rule whose pattern is exactly a name without a namespace does not decide its role. -/
theorem not_exact_ping :
    ¬∀ ds role, lastRole (builtin ++ ds) ping = some role → requiredAfter ds ping = role := by
  intro h
  have hadmin := h [⟨ping, roleAdmin, by decide⟩] roleAdmin (by rw [lastRole_append_singleton, if_pos rfl])
  have hclient := h [⟨ping, roleClient, by decide⟩] roleClient (by rw [lastRole_append_singleton, if_pos rfl])
  rw [requiredAfter_bare _ rfl] at hadmin hclient
  exact absurd (hadmin.symm.trans hclient) (by decide)

end Rpc

end Komari
