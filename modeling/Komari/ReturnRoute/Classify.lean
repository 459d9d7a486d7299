import Komari.Enumerate.First
import Komari.ReturnRoute.Prefix
import Komari.ReturnRoute.Switch

/-!
# The line of a path

A path is classified by the lines that the operator has composed, and then by those that are built in.

* `orderFree_iff` : it holds exactly if no two custom lines are found in one path or under one name.
-/

namespace Komari

namespace ReturnRoute

open TrafficReset (trimSpace)

/-! ### Addresses of hops -/

/-- Not special. -/
def isGlobalUnicast (ip : List UInt8) : Bool :=
  match to4 ip with
  | some v4 =>
    v4 ≠ [255, 255, 255, 255] && v4 ≠ [0, 0, 0, 0] && v4.getD 0 0 ≠ 127 && v4.getD 0 0 &&& 0xf0 ≠ 0xe0 &&
      !(v4.getD 0 0 = 169 && v4.getD 1 0 = 254)
  | none =>
    ip ≠ List.replicate 16 0 && ip ≠ List.replicate 15 0 ++ [1] && ip.getD 0 0 ≠ 0xff &&
      !(ip.getD 0 0 = 0xfe && ip.getD 1 0 &&& 0xc0 = 0x80)

/-- Of a private network. -/
def isPrivate (ip : List UInt8) : Bool :=
  match to4 ip with
  | some v4 =>
    v4.getD 0 0 = 10 || (v4.getD 0 0 = 172 && v4.getD 1 0 &&& 0xf0 = 16) ||
      (v4.getD 0 0 = 192 && v4.getD 1 0 = 168)
  | none => ip.getD 0 0 &&& 0xfe = 0xfc

/-- `returnRouteSignature`. -/
structure Signature where
  ip : String
  asn : ℤ
  hidden : Bool
  prefixGroup : String
  prefixResolved : Bool
deriving DecidableEq

/-- The name of a custom line, or its key. -/
def displayName (row : String × CustomLine) : String := if row.2.name = "" then row.1 else row.2.name

/-- The custom lines of the rules, in some order. -/
abbrev Enumeration (rules : CompiledRules) : Type :=
  {order : List (String × CustomLine) // order.Perm rules.document.customLines.rows}

/-- The lower of two. -/
def lowerReturnRouteConfidence (left right : ℚ) : ℚ := if left < right then left else right

/-- The number is in the group. -/
def CompiledRules.hasASN (rules : CompiledRules) (group : String) (asn : ℤ) : Bool :=
  ((rules.asnGroups.find? group).getD []).contains asn

/-- The confidence of a result, or zero. -/
def CompiledRules.confidence (rules : CompiledRules) (key : String) : ℚ :=
  (rules.document.confidence.find? key).getD 0

section

variable (netip : NetipPackage)

/-- `net.ParseIP`: sixteen bytes. -/
def parseIP (value : String) : Option (List UInt8) :=
  (netip.parseAddr value).bind fun a =>
    if a.zone ≠ "" then none else some (if a.bytes.length = 4 then v4InV6Front ++ a.bytes else a.bytes)

/-- A global address that is not private. -/
def isPublicReturnRouteIP (value : String) : Bool :=
  match parseIP netip (trimSpace value) with
  | none => false
  | some ip =>
    isGlobalUnicast ip && !isPrivate ip &&
      !(to4 ip).any fun v4 => v4.getD 0 0 = 100 && v4.getD 1 0 &&& 0xc0 = 0x40

variable (rules : CompiledRules)

/-- The longest prefix is of the group. -/
def CompiledRules.hasPrefix (group value : String) : Bool := rules.matchPrefixGroup netip value = group

/-- The hop is of the group, by number or prefix. -/
def CompiledRules.hasSignature (group : String) (hop : Signature) : Bool :=
  rules.hasASN group hop.asn ||
    if hop.prefixResolved then hop.prefixGroup = group else rules.hasPrefix netip group hop.ip

/-- The groups of a hop. -/
def returnRouteGroupMatches (hop : Signature) (group : String) : Bool :=
  (hop.prefixResolved && hop.prefixGroup = group) || rules.hasSignature netip group hop

/-- The hop did not answer. -/
def Signature.isHidden (hop : Signature) : Bool := hop.hidden || trimSpace hop.ip = "*"

/-- A hop that is not hidden, with the group of its address; private ones are left out. -/
def prepareReturnRouteSignature (hop : Signature) : Option Signature :=
  let hop := { hop with ip := trimSpace hop.ip }
  if hop.hidden || hop.ip = "*" then none
  else if hop.ip ≠ "" && !isPublicReturnRouteIP netip hop.ip then none
  else if hop.ip = "" && hop.asn ≤ 0 then none
  else if hop.ip ≠ "" && !hop.prefixResolved then
    some { hop with prefixGroup := rules.matchPrefixGroup netip hop.ip, prefixResolved := true }
  else some hop

/-- The hops that count, and how many were left out. -/
def prepareReturnRouteSignatures (hops : List Signature) : List Signature × ℕ :=
  (hops.filterMap (prepareReturnRouteSignature netip rules), hops.countP Signature.isHidden)

/-! ### Custom lines -/

/-- The result of a custom line whose groups were met in order. -/
def customResult (hops : List Signature) (row : String × CustomLine) : Option (String × ℚ) :=
  let matched := hops.foldl
    (Enumerate.advance (fun group hop => returnRouteGroupMatches netip rules hop group) row.2.groups) 0
  if matched = row.2.groups.length then some (displayName row, row.2.confidence) else none

/-! ### Lines that are built in -/

/-- The groups of `unicomReturnRouteGroup`. -/
def unicomGroups : List String := ["unicom_10099", "unicom_9929", "unicom_4837"]

/-- `unicomReturnRouteGroup`: the network of the address comes before the ASN. -/
def unicomReturnRouteGroup (hop : Signature) : String :=
  let group := if hop.prefixResolved then hop.prefixGroup else rules.matchPrefixGroup netip hop.ip
  if unicomGroups.contains group then group
  else (unicomGroups.find? fun candidate => rules.hasASN candidate hop.asn).getD ""

/-- A hop of Unicom. -/
def hasUnicomReturnRouteGroup (hops : List Signature) (group : String) : Bool :=
  hops.any fun hop => unicomReturnRouteGroup netip rules hop = group

/-- `isTelecom163BackboneCandidate`. -/
def isTelecom163BackboneCandidate (hop : Signature) : Bool :=
  match (parseIP netip (trimSpace hop.ip)).bind to4 with
  | none => false
  | some ip =>
    if ip.getD 0 0 ≠ 202 || ip.getD 1 0 ≠ 97 then false
    else if hop.prefixResolved && hop.prefixGroup ≠ "" then hop.prefixGroup = "telecom_163"
    else if !hop.prefixResolved && rules.matchPrefixGroup netip hop.ip ≠ "" then
      rules.matchPrefixGroup netip hop.ip = "telecom_163"
    else rules.hasASN "telecom_163" hop.asn

/-- Only hops of the backbone follow. -/
def allTelecomHopsFrom (hops : List Signature) (index : ℕ) : Bool :=
  index < hops.length && (hops.drop index).all (rules.hasSignature netip "telecom_163")

/-- `hasAmbiguousCN2ForeignHandoff`. -/
def hasAmbiguousCN2ForeignHandoff (hops : List Signature) : Bool :=
  !hops.any (isTelecom163BackboneCandidate netip rules) &&
    hops.dropLast.any fun hop =>
      ((parseIP netip (trimSpace hop.ip)).bind to4).any fun ip => ip.take 3 = [218, 30, 48]

/-- `hasCN2BackboneAfter`, from the index after this one. -/
def hasCN2BackboneAfter (hops : List Signature) (index : Option ℕ) : Bool :=
  (hops.drop (index.elim 0 (· + 1))).any (rules.hasSignature netip "cn2_backbone")

/-- The next hop of a kind. -/
def firstAfter (p : Signature → Bool) (hops : List Signature) (index : ℕ) : Option ℕ :=
  ((hops.drop (index + 1)).findIdx? p).map (index + 1 + ·)

/-- `classifyCN2ReturnRoute`. -/
def classifyCN2ReturnRoute (hops : List Signature) (hiddenHops : ℕ) : Option (String × ℚ) :=
  let pendingConfidence := if 3 ≤ hiddenHops then 4 / 10 else 5 / 10
  match hops.findIdx? (rules.hasSignature netip "cn2_backbone") with
  | none =>
    if 0 < hiddenHops && hasAmbiguousCN2ForeignHandoff netip rules hops then
      some (returnRouteLineCN2Pending, pendingConfidence)
    else none
  | some firstCN2 =>
    if (hops.take firstCN2).any (rules.hasSignature netip "cn2_global") then
      some ("CN2 GIA", rules.confidence "cn2_gia")
    else
      let telecom := rules.hasSignature netip "telecom_163"
      let backbone := fun hop => telecom hop && isTelecom163BackboneCandidate netip rules hop
      let cn2Count := (hops.drop firstCN2).countP (rules.hasSignature netip "cn2_backbone")
      let firstTelecomAfterCN2 := firstAfter telecom hops firstCN2
      let first163BackboneAfterCN2 := firstAfter backbone hops firstCN2
      let telecom163BackboneCount := (hops.drop (firstCN2 + 1)).countP backbone
      -- the last hop is no transit
      let telecom163BackboneTransitCount := (hops.drop (firstCN2 + 1)).dropLast.countP backbone
      if 2 ≤ telecom163BackboneTransitCount &&
          !hasCN2BackboneAfter netip rules hops first163BackboneAfterCN2 then
        some ("CN2 GT", rules.confidence "cn2_gt_strong")
      else
        match firstTelecomAfterCN2 with
        | some firstTelecom =>
          if 2 ≤ cn2Count && telecom163BackboneCount = 0 &&
              (firstTelecom + 1 = hops.length || allTelecomHopsFrom netip rules hops firstTelecom) then
            some ("CN2 GIA", rules.confidence "cn2_gia")
          else some (returnRouteLineCN2Pending, pendingConfidence)
        | none =>
          if 2 ≤ cn2Count then some ("CN2 GIA", rules.confidence "cn2_gia")
          else some (returnRouteLineCN2Pending, pendingConfidence)

/-- The line CUG VIP. -/
def returnRouteLineCUGVIP : String := "CUG VIP"

/-- The premium network that a hop enters, given the groups of the path. -/
def premiumResult (hops : List Signature) (hop : Signature) : Option (String × ℚ) :=
  let has := hasUnicomReturnRouteGroup netip rules hops
  if unicomReturnRouteGroup netip rules hop = "unicom_10099" then
    if has "unicom_9929" then
      some (returnRouteLineCUGVIP,
        lowerReturnRouteConfidence (rules.confidence "unicom_10099") (rules.confidence "unicom_9929"))
    else if has "unicom_4837" then
      some ("CUG 优化",
        lowerReturnRouteConfidence (rules.confidence "unicom_10099") (rules.confidence "unicom_4837"))
    else some (returnRouteLineCUGVIP, rules.confidence "unicom_10099")
  else if unicomReturnRouteGroup netip rules hop = "unicom_9929" then
    if has "unicom_10099" then
      some (returnRouteLineCUGVIP,
        lowerReturnRouteConfidence (rules.confidence "unicom_10099") (rules.confidence "unicom_9929"))
    else some ("9929", rules.confidence "unicom_9929")
  else if rules.hasSignature netip "cmin2" hop then some ("CMIN2", rules.confidence "cmin2")
  else if rules.hasSignature netip "cmi" hop then some ("CMI", rules.confidence "cmi")
  else none

/-- A foreign network that a hop enters. -/
def foreignResult (hop : Signature) : Option (String × ℚ) :=
  if rules.hasSignature netip "softbank" hop then some ("SoftBank", rules.confidence "softbank")
  else if rules.hasSignature netip "iij" hop then some ("IIJ", rules.confidence "iij")
  else if rules.hasSignature netip "lumen" hop then some ("Lumen", rules.confidence "lumen")
  else none

/-- The line that one backbone hop names. -/
def backboneResult (hop : Signature) : Option (String × ℚ) :=
  if rules.hasSignature netip "telecom_163" hop then some ("163", rules.confidence "telecom_163")
  else if unicomReturnRouteGroup netip rules hop = "unicom_4837" then
    some ("4837", rules.confidence "unicom_4837")
  else if rules.hasSignature netip "cmnet" hop then some ("CMNET", rules.confidence "cmnet")
  else if rules.hasPrefix netip "telecom_163" hop.ip then
    some ("163", rules.confidence "telecom_163_prefix")
  else none

/-- The line that is built in: the first premium network, `CN2`, a foreign network, and then the backbone. -/
def builtinLine (hops : List Signature) (hiddenHops : ℕ) : String × ℚ :=
  match hops.findSome? (premiumResult netip rules hops) with
  | some result => result
  | none =>
    match classifyCN2ReturnRoute netip rules hops hiddenHops with
    | some result => result
    | none =>
      match hops.findSome? (foreignResult netip rules) with
      | some result => result
      | none => (hops.findSome? (backboneResult netip rules)).getD ("UNKNOWN", 0)

/-- `classifyReturnRouteSignaturesWithRules`, with the custom lines in some order. -/
def classifyReturnRouteSignaturesWithRules (order : List (String × CustomLine)) (hops : List Signature) :
    String × ℚ :=
  let (hops, hiddenHops) := prepareReturnRouteSignatures netip rules hops
  (order.findSome? (customResult netip rules hops)).getD (builtinLine netip rules hops hiddenHops)

end

/-! ### Names of lines -/

/-- Package `strings`: what it says about letters. -/
structure StringsPackage where
  toUpper : String → String
  equalFold : String → String → Bool

/-- The name of a line of the catalog. -/
def builtinName (line : String) : Option String :=
  if line = "10099" then some returnRouteLineCUGVIP
  else if line = "SOFTBANK" then some "SoftBank"
  else if line = "IIJ" then some "IIJ"
  else if line = "LUMEN" then some "Lumen"
  else none

section

variable (strings : StringsPackage)

/-- The name of a custom line that a text names. -/
def customName (raw : String) (row : String × CustomLine) : Option String :=
  if strings.equalFold raw (displayName row) || strings.equalFold raw row.1 then some (displayName row)
  else none

/-- `normalizeReturnRouteLine`, with the custom lines in some order. -/
def normalizeReturnRouteLine (order : List (String × CustomLine)) (value : String) : String :=
  let raw := trimSpace value
  let line := strings.toUpper raw
  match builtinName line with
  | some name => name
  | none => (order.findSome? (customName strings raw)).getD line

end

/-! ### Probes over one path -/

section

variable (netip : NetipPackage) (strings : StringsPackage) (rules : CompiledRules) (hops : List Signature)
  (text : String)

/-- A probe over a path, for a task that expects a line; both loops over the custom lines take an order. -/
structure PathProbe where
  task : Task
  /-- The line that it expects. -/
  expected : task.expectedLine = text
  probe : Probe
  /-- The order in which the path is classified. -/
  classifyOrder : Enumeration rules
  /-- The line of the path. -/
  classified : (probe.line, probe.confidence) =
    classifyReturnRouteSignaturesWithRules netip rules classifyOrder.1 hops
  /-- The order in which the line that is expected is read. -/
  expectedOrder : Enumeration rules

variable {netip strings rules hops text}

/-- A probe of the path is saved. -/
def PathProbe.save (strings : StringsPackage) (w : Watch) (p : PathProbe netip rules hops text) : Watch :=
  w.step (normalizeReturnRouteLine strings p.expectedOrder.1) (p.task, p.probe)

/-- The results are saved, one after the other. -/
def saveAll (strings : StringsPackage) (w : Watch) (probes : List (PathProbe netip rules hops text)) :
    Watch :=
  probes.foldl (PathProbe.save strings) w

/-- The events of a history, the newest one first. -/
def events (history : List Record) : List Event := history.filterMap Record.event

/-- A task has settled on a line, and its state says whether it is the expected one. -/
def SettledOn (status : Status) (line expected : String) : Prop :=
  status.currentLine = line ∧ (status.state = .switched ↔ line ≠ expected)

variable (netip strings rules hops text)

/-- The order in which maps are enumerated does not matter. -/
structure OrderFree : Prop where
  /-- A path has one line. -/
  classify : ∀ order order' : Enumeration rules,
    classifyReturnRouteSignaturesWithRules netip rules order.1 hops =
      classifyReturnRouteSignaturesWithRules netip rules order'.1 hops
  /-- A text names one line. -/
  normalize : ∀ order order' : Enumeration rules,
    normalizeReturnRouteLine strings order.1 text = normalizeReturnRouteLine strings order'.1 text
  /-- A task that has settled on the line of the path stays on it. -/
  settled : ∀ (order order' : Enumeration rules) (w : Watch),
    SettledOn w.status (classifyReturnRouteSignaturesWithRules netip rules order.1 hops).1
        (normalizeReturnRouteLine strings order'.1 text) →
      ∀ probes : List (PathProbe netip rules hops text),
        events (saveAll strings w probes).history = events w.history
  /-- Another one gets there with one event at most. -/
  once : ∀ (w : Watch) (probes : List (PathProbe netip rules hops text)),
    events (saveAll strings w probes).history = events w.history ∨
      ∃ e, events (saveAll strings w probes).history = e :: events w.history ∧
        ∀ order : Enumeration rules,
          e.toLine = (classifyReturnRouteSignaturesWithRules netip rules order.1 hops).1

/-- The groups of a custom line occur in a path, in their order. -/
def Occurs (row : String × CustomLine) : Prop :=
  List.SublistForall₂ (fun group hop => returnRouteGroupMatches netip rules hop group = true) row.2.groups
    (prepareReturnRouteSignatures netip rules hops).1

/-- A text names a custom line, or its key, up to case. -/
def Names (row : String × CustomLine) : Prop :=
  strings.equalFold (trimSpace text) (displayName row) ∨ strings.equalFold (trimSpace text) row.1

/-- Custom lines that occur in the path, or that the text names, are the same. -/
structure Unambiguous : Prop where
  path : ∀ row ∈ rules.document.customLines.rows, ∀ row' ∈ rules.document.customLines.rows,
    Occurs netip rules hops row → Occurs netip rules hops row' →
      displayName row = displayName row' ∧ row.2.confidence = row'.2.confidence
  /-- The text, unless its line is built in. -/
  name : builtinName (strings.toUpper (trimSpace text)) = none →
    ∀ row ∈ rules.document.customLines.rows, ∀ row' ∈ rules.document.customLines.rows,
      Names strings text row → Names strings text row' → displayName row = displayName row'

end

/-! ### Orders -/

section

variable {netip : NetipPackage} {strings : StringsPackage} {rules : CompiledRules} {hops : List Signature}
  {text : String}

theorem customResult_eq_some_iff {row : String × CustomLine} {result : String × ℚ} :
    customResult netip rules (prepareReturnRouteSignatures netip rules hops).1 row = some result ↔
      Occurs netip rules hops row ∧ (displayName row, row.2.confidence) = result := by
  rw [customResult, Occurs, ← Enumerate.foldl_advance_eq_length_iff]
  split_ifs with hmatched <;> simp [hmatched]

theorem customName_eq_some_iff {row : String × CustomLine} {name : String} :
    customName strings (trimSpace text) row = some name ↔ Names strings text row ∧ displayName row = name := by
  rw [customName, Names, ← Bool.or_eq_true]
  split_ifs with hnames <;> simp [hnames]

/-- **A path has one line in every order exactly if all custom lines that occur in it agree.** -/
theorem classify_order_iff :
    (∀ order order' : Enumeration rules,
        classifyReturnRouteSignaturesWithRules netip rules order.1 hops =
          classifyReturnRouteSignaturesWithRules netip rules order'.1 hops) ↔
      ∀ row ∈ rules.document.customLines.rows, ∀ row' ∈ rules.document.customLines.rows,
        Occurs netip rules hops row → Occurs netip rules hops row' →
          displayName row = displayName row' ∧ row.2.confidence = row'.2.confidence := by
  have hperm := Enumerate.getD_findSome?_perm_iff
    (customResult netip rules (prepareReturnRouteSignatures netip rules hops).1)
    (builtinLine netip rules (prepareReturnRouteSignatures netip rules hops).1
      (prepareReturnRouteSignatures netip rules hops).2) rules.document.customLines.rows
  simp only [customResult_eq_some_iff] at hperm
  constructor
  · intro h row hrow row' hrow' hoccurs hoccurs'
    have heq := hperm.mp (fun l₁ l₂ h₁ h₂ => h ⟨l₁, h₁⟩ ⟨l₂, h₂⟩) row hrow row' hrow' _ _ ⟨hoccurs, rfl⟩
      ⟨hoccurs', rfl⟩
    exact Prod.mk.inj heq
  · intro h order order'
    refine hperm.mpr (fun row hrow row' hrow' x y hx hy => ?_) order.1 order'.1 order.2 order'.2
    obtain ⟨hname, hconfidence⟩ := h row hrow row' hrow' hx.1 hy.1
    rw [← hx.2, ← hy.2, hname, hconfidence]

/-- **A text names one line in every order exactly if all custom lines with this name agree.** -/
theorem normalize_order_iff :
    (∀ order order' : Enumeration rules,
        normalizeReturnRouteLine strings order.1 text = normalizeReturnRouteLine strings order'.1 text) ↔
      (builtinName (strings.toUpper (trimSpace text)) = none →
        ∀ row ∈ rules.document.customLines.rows, ∀ row' ∈ rules.document.customLines.rows,
          Names strings text row → Names strings text row' → displayName row = displayName row') := by
  cases hbuiltin : builtinName (strings.toUpper (trimSpace text)) with
  | some name => simp [normalizeReturnRouteLine, hbuiltin]
  | none =>
    have hperm := Enumerate.getD_findSome?_perm_iff (customName strings (trimSpace text))
      (strings.toUpper (trimSpace text)) rules.document.customLines.rows
    simp only [customName_eq_some_iff] at hperm
    simp only [normalizeReturnRouteLine, hbuiltin, forall_const]
    constructor
    · intro h row hrow row' hrow' hnames hnames'
      exact hperm.mp (fun l₁ l₂ h₁ h₂ => h ⟨l₁, h₁⟩ ⟨l₂, h₂⟩) row hrow row' hrow' _ _ ⟨hnames, rfl⟩
        ⟨hnames', rfl⟩
    · intro h order order'
      refine hperm.mpr (fun row hrow row' hrow' x y hx hy => ?_) order.1 order'.1 order.2 order'.2
      rw [← hx.2, ← hy.2]
      exact h row hrow row' hrow' hx.1 hy.1

/-! ### Events over one path -/

@[simp] theorem events_none (task : Task) (o : Observation) (history : List Record) :
    events (⟨task, o, none⟩ :: history) = events history := rfl

@[simp] theorem events_some (task : Task) (o : Observation) (e : Event) (history : List Record) :
    events (⟨task, o, some e⟩ :: history) = e :: events history := rfl

/-- What a line makes of the status: nothing happens, or the task settles on it. -/
theorem Advanced.settledOn {normalize : String → String} {status : Status} {task : Task} {line : String}
    (hne : line ≠ "") {saved : Status} {event : Option Event}
    (h : Advanced normalize status task line saved event) :
    (event = none ∧ (SettledOn status line (normalize task.expectedLine) →
      SettledOn saved line (normalize task.expectedLine))) ∨
    ∃ e, event = some e ∧ e.toLine = line ∧ SettledOn saved line (normalize task.expectedLine) ∧
      ¬SettledOn status line (normalize task.expectedLine) := by
  cases h with
  | settle hline hstate hevent hcurrent hhealthy hcount =>
    exact .inl ⟨hevent, fun _ => ⟨hcurrent, by simp [hhealthy, hline]⟩⟩
  | stay hline hstate hevent hcurrent hsame hcount =>
    refine .inl ⟨hevent, fun hsettled => ⟨hcurrent.trans hsettled.1, ?_⟩⟩
    rw [hsame]
    exact hsettled.2
  | wait hline hevent hcurrent hsame hcandidate hcount hfew =>
    refine .inl ⟨hevent, fun hsettled => ⟨hcurrent.trans hsettled.1, ?_⟩⟩
    rw [hsame, if_neg (hsettled.1.trans_ne hne)]
    exact hsettled.2
  | confirm e hline hstay henough hevent hkind hfrom hto hcurrent hstate hcount =>
    refine .inr ⟨e, hevent, hto, ⟨hcurrent, ?_⟩, ?_⟩
    · rw [hstate]
      split_ifs with hexpected <;> simp [hexpected]
    · rintro ⟨hsame, hiff⟩
      by_cases hexpected : line = normalize task.expectedLine
      · exact hiff.mp (hline hexpected).2 hexpected
      · exact hstay hexpected ⟨hiff.mpr hexpected, hsame.symm⟩

/-- What a probe makes of a task: there is no event, or the task settles on the line that was found. -/
theorem save_cases (strings : StringsPackage) (w : Watch) (p : PathProbe netip rules hops text) :
    (events (p.save strings w).history = events w.history ∧
      (SettledOn w.status p.probe.line (normalizeReturnRouteLine strings p.expectedOrder.1 text) →
        SettledOn (p.save strings w).status p.probe.line
          (normalizeReturnRouteLine strings p.expectedOrder.1 text))) ∨
    ∃ e, events (p.save strings w).history = e :: events w.history ∧ e.toLine = p.probe.line ∧
      SettledOn (p.save strings w).status p.probe.line
        (normalizeReturnRouteLine strings p.expectedOrder.1 text) ∧
      ¬SettledOn w.status p.probe.line (normalizeReturnRouteLine strings p.expectedOrder.1 text) := by
  obtain ⟨task, expected, probe, classifyOrder, classified, expectedOrder⟩ := p
  subst expected
  rw [PathProbe.save]
  rcases step_cases w task probe with
    ⟨status, heq, -, hcurrent, hstate, -⟩ | ⟨line, status, event, hne, hobs, heq, hsaved⟩
  · rw [heq]
    refine .inl ⟨rfl, fun hsettled => ⟨hcurrent.trans hsettled.1, ?_⟩⟩
    rw [hstate, if_neg (hsettled.1.trans_ne probe.line_ne)]
    exact hsettled.2
  · have hline : probe.line = line := by
      unfold Probe.observation at hobs
      split_ifs at hobs
      exact Observation.line.inj hobs
    rw [heq, hline]
    rcases hsaved.settledOn hne with ⟨rfl, hkeep⟩ | ⟨e, rfl, hto, hsettled, hnot⟩
    · exact .inl ⟨events_none _ _ _, hkeep⟩
    · exact .inr ⟨e, events_some _ _ _ _, hto, hsettled, hnot⟩

/-- A task that has settled on the line of a path stays on it. -/
theorem events_saveAll_of_settledOn {line expected : String} {w : Watch}
    {probes : List (PathProbe netip rules hops text)} (hline : ∀ p ∈ probes, p.probe.line = line)
    (hexpected : ∀ p ∈ probes, normalizeReturnRouteLine strings p.expectedOrder.1 text = expected)
    (h : SettledOn w.status line expected) :
    events (saveAll strings w probes).history = events w.history := by
  induction probes generalizing w with
  | nil => rfl
  | cons p probes ih =>
    obtain ⟨hp, hline⟩ := List.forall_mem_cons.mp hline
    obtain ⟨hp', hexpected⟩ := List.forall_mem_cons.mp hexpected
    have hcases := save_cases strings w p
    rw [hp, hp'] at hcases
    rcases hcases with ⟨hevents, hkeep⟩ | ⟨e, -, -, -, hnot⟩
    · exact (ih hline hexpected (hkeep h)).trans hevents
    · exact absurd h hnot

/-- A task gets to the line of a path with one event at most. -/
theorem events_saveAll {line expected : String} (w : Watch)
    {probes : List (PathProbe netip rules hops text)} (hline : ∀ p ∈ probes, p.probe.line = line)
    (hexpected : ∀ p ∈ probes, normalizeReturnRouteLine strings p.expectedOrder.1 text = expected) :
    events (saveAll strings w probes).history = events w.history ∨
      ∃ e, events (saveAll strings w probes).history = e :: events w.history ∧ e.toLine = line := by
  induction probes generalizing w with
  | nil => exact .inl rfl
  | cons p probes ih =>
    obtain ⟨hp, hline⟩ := List.forall_mem_cons.mp hline
    obtain ⟨hp', hexpected⟩ := List.forall_mem_cons.mp hexpected
    have hcases := save_cases strings w p
    rw [hp, hp'] at hcases
    rcases hcases with ⟨hevents, -⟩ | ⟨e, hevents, hto, hsettled, -⟩
    · have hrest := ih (p.save strings w) hline hexpected
      rw [hevents] at hrest
      exact hrest
    · exact .inr ⟨e, (events_saveAll_of_settledOn hline hexpected hsettled).trans hevents, hto⟩

end

/-- **Classification does not depend on the order of the custom lines exactly if those that occur in a path,
or that a text names, are the same**: a path then has one line, a text names one line, and repeated probes
over the path leave a task where it has settled. -/
theorem orderFree_iff (netip : NetipPackage) (strings : StringsPackage) (rules : CompiledRules)
    (hops : List Signature) (text : String) :
    OrderFree netip strings rules hops text ↔ Unambiguous netip strings rules hops text := by
  constructor
  · intro h
    exact ⟨classify_order_iff.mp h.classify, normalize_order_iff.mp h.normalize⟩
  · intro h
    have hclassify := classify_order_iff.mpr h.path
    have hnormalize := normalize_order_iff.mpr h.name
    have hline : ∀ (order : Enumeration rules) (p : PathProbe netip rules hops text),
        p.probe.line = (classifyReturnRouteSignaturesWithRules netip rules order.1 hops).1 := fun order p =>
      congrArg Prod.fst (p.classified.trans (hclassify p.classifyOrder order))
    refine ⟨hclassify, hnormalize, fun order order' w hsettled probes => ?_, fun w probes => ?_⟩
    · exact events_saveAll_of_settledOn (fun p _ => hline order p)
        (fun p _ => hnormalize p.expectedOrder order') hsettled
    · let order : Enumeration rules := ⟨_, .refl _⟩
      refine (events_saveAll w (fun p _ => hline order p)
        (fun p _ => hnormalize p.expectedOrder order)).imp_right ?_
      rintro ⟨e, hevents, hto⟩
      refine ⟨e, hevents, fun order' => ?_⟩
      rw [hto, hclassify order order']

/-! ### Two lines in one path -/

/-- Package `strings`, for texts of ASCII letters. -/
def asciiStrings : StringsPackage where
  toUpper := String.toUpper
  equalFold s t := s.toUpper = t.toUpper

/-- Two custom lines have the same groups. -/
def ambiguousRules : RuleDocument :=
  { nestedRules with
    asnGroups := nestedRules.asnGroups.upsert "cmi" [58453]
    customLines := (Table.upsert ∅ "a" ⟨"Lumen-A", ["lumen", "cmi"], 96 / 100⟩).upsert "b"
      ⟨"Lumen-B", ["lumen", "cmi"], 96 / 100⟩ }

/-- A hop of two lines. -/
def ambiguousPath : List Signature :=
  [⟨"", 3356, false, "", false⟩, ⟨"", 58453, false, "", false⟩]

/-- The rules are accepted, and the order decides between the two lines. -/
theorem order_decides : ¬∀ document rules, compileReturnRouteRules knownNetip document = .ok rules →
    ∀ hops text, OrderFree knownNetip asciiStrings rules hops text := by
  intro h
  cases hcompile : compileReturnRouteRules knownNetip ambiguousRules with
  | error e =>
    have hok : (compileReturnRouteRules knownNetip ambiguousRules).toBool = true := by decide +kernel
    rw [hcompile] at hok
    cases hok
  | ok rules =>
    have hlines : ((compileReturnRouteRules knownNetip ambiguousRules).toOption.map fun rules =>
        ((classifyReturnRouteSignaturesWithRules knownNetip rules rules.document.customLines.rows
            ambiguousPath).1,
          (classifyReturnRouteSignaturesWithRules knownNetip rules rules.document.customLines.rows.reverse
            ambiguousPath).1)) = some ("Lumen-A", "Lumen-B") := by
      decide +kernel
    have hsame := (h ambiguousRules rules hcompile ambiguousPath "").classify
      ⟨rules.document.customLines.rows, .refl _⟩
      ⟨rules.document.customLines.rows.reverse, List.reverse_perm _⟩
    rw [hcompile] at hlines
    have hlines := Option.some.inj hlines
    have heq := (congrArg Prod.fst hlines).symm.trans
      ((congrArg Prod.fst hsame).trans (congrArg Prod.snd hlines))
    revert heq
    decide

end ReturnRoute

end Komari
