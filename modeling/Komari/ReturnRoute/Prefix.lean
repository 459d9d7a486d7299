import Komari.ReturnRoute.Rules
import Mathlib.Data.List.Nodup

/-!
# The group of an address

* `matchPrefixGroup_longest` : so it does for all documents that are accepted.
-/

namespace Komari

namespace ReturnRoute

open TrafficReset (trimSpace)

variable {netip : NetipPackage}

/-! ### Networks of a document -/

/-- A document has a network in a group. -/
def Configured (netip : NetipPackage) (prefixGroups : Table String (List String)) (rule : PrefixRule) :
    Prop :=
  ∃ value, (rule.group, value) ∈ grouped prefixGroups ∧
    parseReturnRouteCIDR netip value = some (rule.network, rule.network.string netip)

/-- The texts of the networks. -/
def networkTexts (netip : NetipPackage) (rules : List PrefixRule) : List String :=
  rules.map fun rule => rule.network.string netip

/-- The rules of a group. -/
def rulesOf (rules : List PrefixRule) (group : String) : List PrefixRule :=
  rules.filter fun rule => rule.group = group

theorem mem_grouped {α : Type} {t : Table String (List α)} {group : String} {value : α} :
    (group, value) ∈ grouped t ↔ group ∈ returnRouteASNGroups ∧ value ∈ (t.find? group).getD [] := by
  simp only [grouped, List.mem_flatMap, List.mem_map, Prod.mk.injEq]
  constructor
  · rintro ⟨g, hg, v, hv, rfl, rfl⟩
    exact ⟨hg, hv⟩
  · rintro ⟨hg, hv⟩
    exact ⟨group, hg, value, hv, rfl, rfl⟩

theorem parseReturnRouteCIDR_eq_some {value : String} {n : IPNet} {normalized : String}
    (h : parseReturnRouteCIDR netip value = some (n, normalized)) :
    n.WellFormed ∧ normalized = n.string netip := by
  simp only [parseReturnRouteCIDR, Option.map_eq_some_iff, Prod.mk.injEq] at h
  obtain ⟨n', hparse, rfl, rfl⟩ := h
  exact ⟨wellFormed_of_parseCIDR hparse, rfl⟩

variable {prefixGroups : Table String (List String)}

theorem Configured.wellFormed {rule : PrefixRule}
    (h : Configured netip prefixGroups rule) : rule.network.WellFormed := by
  obtain ⟨value, -, hparse⟩ := h
  exact (parseReturnRouteCIDR_eq_some hparse).1

theorem find?_appendTo {α : Type} (t : Table String (List α)) (group group' : String) (value : α) :
    ((appendTo t group value).find? group').getD [] =
      (t.find? group').getD [] ++ if group' = group then [value] else [] := by
  rw [appendTo, Table.find?_upsert]
  by_cases hg : group' = group
  · subst hg
    simp
  · simp [hg]

/-- The networks that were compiled up to now agree with the rules. -/
structure Prefixes.Good (netip : NetipPackage) (compiled : Prefixes) : Prop where
  seen : ∀ text, compiled.seen.find? text = none ↔ text ∉ networkTexts netip compiled.prefixRules
  nodup : (networkTexts netip compiled.prefixRules).Nodup
  /-- The networks of the groups. -/
  prefixGroups : ∀ group, (compiled.prefixGroups.find? group).getD [] =
    (rulesOf compiled.prefixRules group).map PrefixRule.network
  texts : ∀ group, (compiled.texts.find? group).getD [] =
    (rulesOf compiled.prefixRules group).map fun rule => rule.network.string netip

theorem good_empty : Prefixes.Good netip ⟨∅, ∅, ∅, []⟩ :=
  ⟨fun _ => by simp [networkTexts], List.nodup_nil, fun _ => rfl, fun _ => rfl⟩

variable {rules : List PrefixRule}

theorem mem_networkTexts (rule : PrefixRule) (h : rule ∈ rules) :
    rule.network.string netip ∈ networkTexts netip rules :=
  List.mem_map.mpr ⟨rule, h, rfl⟩

theorem networkTexts_append (rules : List PrefixRule) (rule : PrefixRule) :
    networkTexts netip (rules ++ [rule]) = networkTexts netip rules ++ [rule.network.string netip] := by
  simp [networkTexts]

theorem rulesOf_append (rules : List PrefixRule) (rule : PrefixRule) (group : String) :
    rulesOf (rules ++ [rule]) group = rulesOf rules group ++ if group = rule.group then [rule] else [] := by
  rw [rulesOf, List.filter_append, rulesOf]
  by_cases hg : group = rule.group
  · simp [hg]
  · simp [hg, Ne.symm hg]

variable {label : String} {compiled : Prefixes}

theorem addPrefix_eq_ok {compiled' : Prefixes} {entry : String × String}
    (h : addPrefix netip label compiled entry = .ok compiled') :
    ∃ n, parseReturnRouteCIDR netip entry.2 = some (n, n.string netip) ∧
      compiled'.prefixRules = compiled.prefixRules ++ [⟨entry.1, n⟩] ∧
        (compiled.Good netip → compiled'.Good netip) := by
  unfold addPrefix at h
  cases hparse : parseReturnRouteCIDR netip entry.2 with
  | none => rw [hparse] at h; cases h
  | some found =>
    obtain ⟨n, normalized⟩ := found
    obtain ⟨-, rfl⟩ := parseReturnRouteCIDR_eq_some hparse
    rw [hparse] at h
    dsimp only at h
    cases hseen : compiled.seen.find? (n.string netip) with
    | some previous => rw [hseen] at h; cases h
    | none =>
      rw [hseen] at h
      cases h
      refine ⟨n, rfl, rfl, fun hgood => ?_⟩
      refine ⟨fun text => ?_, ?_, fun group => ?_, fun group => ?_⟩
      · rw [Table.find?_upsert, networkTexts_append, List.mem_append, List.mem_singleton]
        by_cases htext : text = n.string netip
        · simp [htext]
        · simp only [htext, if_false, or_false]
          exact hgood.seen text
      · rw [networkTexts_append]
        refine List.Nodup.append hgood.nodup (List.nodup_singleton _) ?_
        rw [List.disjoint_singleton]
        exact (hgood.seen _).mp hseen
      · rw [find?_appendTo, hgood.prefixGroups, rulesOf_append, List.map_append]
        split_ifs <;> rfl
      · rw [find?_appendTo, hgood.texts, rulesOf_append, List.map_append]
        split_ifs <;> rfl

/-- **The networks of a document**, each once. -/
theorem compilePrefixes_spec (h : compilePrefixes netip label prefixGroups = .ok compiled) :
    (∀ rule, rule ∈ compiled.prefixRules ↔ Configured netip prefixGroups rule) ∧ compiled.Good netip := by
  suffices ∀ (entries : List (String × String)) (start : Prefixes), start.Good netip →
      entries.foldlM (addPrefix netip label) start = .ok compiled → compiled.Good netip ∧
        ∀ rule, rule ∈ compiled.prefixRules ↔ rule ∈ start.prefixRules ∨ ∃ value,
          (rule.group, value) ∈ entries ∧
            parseReturnRouteCIDR netip value = some (rule.network, rule.network.string netip) by
    obtain ⟨hgood, hmem⟩ := this _ _ good_empty h
    exact ⟨fun rule => (hmem rule).trans (or_iff_right List.not_mem_nil), hgood⟩
  intro entries
  induction entries with
  | nil =>
    intro start hgood h
    cases h
    exact ⟨hgood, fun rule => by simp⟩
  | cons entry entries ih =>
    intro start hgood h
    rw [List.foldlM_cons] at h
    obtain ⟨next, hnext, h⟩ := bind_eq_ok.mp h
    obtain ⟨n, hparse, hrules, hgood'⟩ := addPrefix_eq_ok hnext
    obtain ⟨hgood'', hmem⟩ := ih next (hgood' hgood) h
    refine ⟨hgood'', fun rule => (hmem rule).trans ?_⟩
    rw [hrules, List.mem_append, List.mem_singleton, or_assoc]
    refine or_congr_right ⟨?_, ?_⟩
    · rintro (rfl | ⟨value, hvalue, hrule⟩)
      · exact ⟨entry.2, List.mem_cons_self, hparse⟩
      · exact ⟨value, List.mem_cons_of_mem _ hvalue, hrule⟩
    · rintro ⟨value, hvalue, hrule⟩
      rcases List.mem_cons.mp hvalue with heq | hmem
      · left
        subst heq
        rw [hparse] at hrule
        cases rule
        cases hrule
        rfl
      · exact .inr ⟨value, hmem, hrule⟩

/-! ### Merging -/

/-- Rules with networks as they are compiled, each text once. -/
structure Compiled (netip : NetipPackage) (rules : List PrefixRule) : Prop where
  /-- The networks are well formed. -/
  wellFormed : ∀ rule ∈ rules, rule.network.WellFormed
  nodup : (networkTexts netip rules).Nodup

theorem compiled_of_compilePrefixes (h : compilePrefixes netip label prefixGroups = .ok compiled) :
    Compiled netip compiled.prefixRules := by
  obtain ⟨hmem, hgood⟩ := compilePrefixes_spec h
  exact ⟨fun rule hrule => ((hmem rule).mp hrule).wellFormed, hgood.nodup⟩

/-- The networks that are merged have the texts of the rules. -/
structure Merges (netip : NetipPackage) (merged : List String × CompiledRules) : Prop where
  seen : ∀ text, text ∈ merged.1 ↔ text ∈ networkTexts netip merged.2.prefixRules
  compiled : Compiled netip merged.2.prefixRules

/-- What a merge leaves: the rules before, and others whose texts were not there. -/
theorem foldl_mergePrefix (entries : List (String × IPNet × String))
    (hentries : ∀ entry ∈ entries, entry.2.1.WellFormed) {merged : List String × CompiledRules}
    (h : Merges netip merged) :
    Merges netip (entries.foldl (mergePrefix netip) merged) ∧
      merged.2.prefixRules ⊆ (entries.foldl (mergePrefix netip) merged).2.prefixRules ∧
      (∀ rule ∈ (entries.foldl (mergePrefix netip) merged).2.prefixRules, rule ∈ merged.2.prefixRules ∨
        (∃ text, (rule.group, rule.network, text) ∈ entries) ∧
          rule.network.string netip ∉ networkTexts netip merged.2.prefixRules) ∧
      ∀ entry ∈ entries, entry.2.1.string netip ∈
        networkTexts netip (entries.foldl (mergePrefix netip) merged).2.prefixRules := by
  induction entries generalizing merged with
  | nil => exact ⟨h, fun _ hrule => hrule, fun _ hrule => .inl hrule, by simp⟩
  | cons entry entries ih =>
    obtain ⟨seen, rules⟩ := merged
    obtain ⟨group, network, text⟩ := entry
    obtain ⟨hwf, hrest⟩ := List.forall_mem_cons.mp hentries
    rw [List.foldl_cons]
    by_cases hseen : network.string netip ∈ seen
    · have hstep : mergePrefix netip (seen, rules) (group, network, text) = (seen, rules) :=
        if_pos (List.contains_iff_mem.mpr hseen)
      rw [hstep]
      obtain ⟨hmerges, hsub, hmem, htexts⟩ := ih hrest h
      refine ⟨hmerges, hsub, fun rule hrule => ?_, ?_⟩
      · refine (hmem rule hrule).imp_right fun ⟨⟨text', htext'⟩, hnew⟩ => ⟨⟨text', ?_⟩, hnew⟩
        exact List.mem_cons_of_mem _ htext'
      · refine List.forall_mem_cons.mpr ⟨?_, htexts⟩
        obtain ⟨rule, hrule, heq⟩ := List.mem_map.mp ((h.seen _).mp hseen)
        exact List.mem_map.mpr ⟨rule, hsub hrule, heq⟩
    · have hnew : network.string netip ∉ networkTexts netip rules.prefixRules :=
        fun hmem => hseen ((h.seen _).mpr hmem)
      have hrules : (mergePrefix netip (seen, rules) (group, network, text)).2.prefixRules =
          rules.prefixRules ++ [⟨group, network⟩] := by
        simp [mergePrefix, hseen]
      have hseen' : (mergePrefix netip (seen, rules) (group, network, text)).1 =
          network.string netip :: seen := by
        simp [mergePrefix, hseen]
      have hnext : Merges netip (mergePrefix netip (seen, rules) (group, network, text)) := by
        refine ⟨fun text' => ?_, fun rule hrule => ?_, ?_⟩
        · rw [hseen', hrules, networkTexts_append, List.mem_append, List.mem_cons, List.mem_singleton,
            or_comm]
          exact or_congr_left (h.seen text')
        · rw [hrules, List.mem_append, List.mem_singleton] at hrule
          rcases hrule with hrule | rfl
          · exact h.compiled.wellFormed rule hrule
          · exact hwf
        · rw [hrules, networkTexts_append]
          refine List.Nodup.append h.compiled.nodup (List.nodup_singleton _) ?_
          rw [List.disjoint_singleton]
          exact hnew
      obtain ⟨hmerges, hsub, hmem, htexts⟩ := ih hrest hnext
      rw [hrules] at hsub hmem
      refine ⟨hmerges, fun rule hrule => hsub (List.mem_append_left _ hrule), fun rule hrule => ?_, ?_⟩
      · rcases hmem rule hrule with hrule | ⟨⟨text', htext'⟩, hnew'⟩
        · rcases List.mem_append.mp hrule with hrule | hrule
          · exact .inl hrule
          · obtain rfl := List.mem_singleton.mp hrule
            exact .inr ⟨⟨text, List.mem_cons_self⟩, hnew⟩
        · rw [networkTexts_append, List.mem_append, not_or] at hnew'
          exact .inr ⟨⟨text', List.mem_cons_of_mem _ htext'⟩, hnew'.1⟩
      · refine List.forall_mem_cons.mpr ⟨?_, htexts⟩
        exact mem_networkTexts ⟨group, network⟩ (hsub (List.mem_append_right _ (List.mem_singleton_self _)))

/-- The networks of a BGP document that is compiled. -/
theorem mem_entries
    (h : compilePrefixes netip label prefixGroups = .ok compiled) {bgp : CompiledBGPRules}
    (hgroups : bgp.prefixGroups = compiled.prefixGroups) (htexts : bgp.texts = compiled.texts)
    {group : String} {network : IPNet} :
    (∃ text, (group, network, text) ∈ bgp.entries) ↔ (⟨group, network⟩ : PrefixRule) ∈ compiled.prefixRules := by
  obtain ⟨hmem, hgood⟩ := compilePrefixes_spec h
  have hzip : ∀ g, ((bgp.prefixGroups.find? g).getD []).zip ((bgp.texts.find? g).getD []) =
      (rulesOf compiled.prefixRules g).map fun rule => (rule.network, rule.network.string netip) := by
    intro g
    rw [hgroups, htexts, hgood.prefixGroups, hgood.texts, List.zip_map']
  simp only [CompiledBGPRules.entries, hzip, List.map_map, List.mem_flatMap, List.mem_map, Function.comp_apply,
    Prod.mk.injEq, rulesOf, List.mem_filter, decide_eq_true_eq]
  constructor
  · rintro ⟨text, g, -, rule, ⟨hrule, rfl⟩, rfl, rfl, rfl⟩
    exact hrule
  · intro hrule
    obtain ⟨value, hvalue, -⟩ := (hmem _).mp hrule
    exact ⟨_, group, (mem_grouped.mp hvalue).1, ⟨group, network⟩, ⟨hrule, rfl⟩, rfl, rfl, rfl⟩

/-! ### Matching -/

/-- The bits of its prefix. -/
def IPNet.key (n : IPNet) : List Bool := firstBits n.number.1 n.number.2

/-- The networks of a family with their groups. -/
def familyEntries (four : Bool) (rules : List PrefixRule) : List (List Bool × String) :=
  (rules.filter fun rule => decide (rule.network.number.1.length = 4) = four).map fun rule =>
    (rule.network.key, rule.group)

theorem insert_eq {rule : PrefixRule} (h : rule.network.WellFormed) (matcher : PrefixMatcher) :
    matcher.insert netip rule =
      if rule.network.number.1.length = 4 then
        { matcher with v4 := matcher.v4.insert rule.group rule.network.key }
      else { matcher with v6 := matcher.v6.insert rule.group rule.network.key } := by
  obtain ⟨-, -, hmasked, hmapped⟩ := h.number
  obtain ⟨a, ha, hparse⟩ := parsePrefix_string netip h
  have hbytes : (Prefix.masked ⟨a, rule.network.number.2⟩).addr.bytes = rule.network.number.1 := by
    show mask a.bytes rule.network.number.2 = _
    rw [ha, hmasked]
  have hunmap : (Prefix.masked ⟨a, rule.network.number.2⟩).addr.unmap =
      (Prefix.masked ⟨a, rule.network.number.2⟩).addr := by
    rw [Addr.unmap, dif_neg]
    rwa [hbytes]
  rw [PrefixMatcher.insert, hparse]
  dsimp only
  rw [hunmap, Addr.is4, hbytes]
  by_cases hfour : rule.network.number.1.length = 4
  · rw [if_pos (decide_eq_true hfour), if_pos hfour]
    rfl
  · rw [if_neg (by simpa using hfour), if_neg hfour]
    rfl

theorem newReturnRoutePrefixMatcher_eq
    (h : ∀ rule ∈ rules, rule.network.WellFormed) : newReturnRoutePrefixMatcher netip rules =
      ⟨BitTrie.nil.insertAll (familyEntries true rules), BitTrie.nil.insertAll (familyEntries false rules)⟩ := by
  suffices ∀ matcher : PrefixMatcher, rules.foldl (PrefixMatcher.insert netip) matcher =
      ⟨matcher.v4.insertAll (familyEntries true rules), matcher.v6.insertAll (familyEntries false rules)⟩ from
    this _
  induction rules with
  | nil => intro matcher; rfl
  | cons rule rules ih =>
    intro matcher
    obtain ⟨hwf, hrest⟩ := List.forall_mem_cons.mp h
    rw [List.foldl_cons, ih hrest, insert_eq hwf]
    by_cases hfour : rule.network.number.1.length = 4
    · simp [familyEntries, hfour, BitTrie.insertAll]
    · simp [familyEntries, hfour, BitTrie.insertAll]

/-- Networks of one family with the same bits have the same number. -/
theorem number_eq_of_key_eq {n n' : IPNet} (h : n.WellFormed) (h' : n'.WellFormed)
    (hfamily : n.number.1.length = n'.number.1.length) (hkey : n.key = n'.key) : n.number = n'.number := by
  obtain ⟨-, hle, hmasked, -⟩ := h.number
  obtain ⟨-, -, hmasked', -⟩ := h'.number
  have hones : n.number.2 = n'.number.2 := by
    have hlength := congrArg List.length hkey
    rwa [IPNet.key, IPNet.key, length_firstBits, length_firstBits] at hlength
  refine Prod.ext ?_ hones
  rw [← hmasked, ← hmasked', hones]
  refine (mask_eq_mask_iff hfamily (hones ▸ hle)).mpr ?_
  rw [IPNet.key, IPNet.key, hones] at hkey
  exact hkey

theorem string_eq_of_number_eq {n n' : IPNet} (h : n.number = n'.number) :
    n.string netip = n'.string netip := by
  simp only [IPNet.string, h]

theorem Compiled.eq_of_string_eq (h : Compiled netip rules) {rule rule' : PrefixRule}
    (hrule : rule ∈ rules) (hrule' : rule' ∈ rules)
    (heq : rule.network.string netip = rule'.network.string netip) : rule = rule' :=
  List.inj_on_of_nodup_map h.nodup hrule hrule' heq

/-- In a family, every network has its own bits. -/
theorem Compiled.nodup_keys (h : Compiled netip rules) (four : Bool) :
    ((familyEntries four rules).map Prod.fst).Nodup := by
  rw [familyEntries, List.map_map]
  refine List.Nodup.map_on ?_ ((List.Nodup.of_map _ h.nodup).filter _)
  intro rule hrule rule' hrule' heq
  obtain ⟨hmem, hfour⟩ := List.mem_filter.mp hrule
  obtain ⟨hmem', hfour'⟩ := List.mem_filter.mp hrule'
  rw [decide_eq_true_eq] at hfour hfour'
  have hwf := h.wellFormed rule hmem
  have hwf' := h.wellFormed rule' hmem'
  have hfamily : rule.network.number.1.length = rule'.network.number.1.length := by
    have hiff := decide_eq_decide.mp (hfour.trans hfour'.symm)
    rcases hwf.number.1 with hlength | hlength <;> rcases hwf'.number.1 with hlength' | hlength' <;> omega
  exact h.eq_of_string_eq hmem hmem' (string_eq_of_number_eq (number_eq_of_key_eq hwf hwf' hfamily heq))

theorem bytes_unmap (a : Addr) : a.unmap.bytes = (to4 a.bytes).getD a.bytes := by
  unfold Addr.unmap to4
  by_cases hmapped : IsMapped a.bytes
  · rw [dif_pos hmapped, if_neg (by rw [hmapped.1]; decide), if_pos hmapped]
    rfl
  · rw [dif_neg hmapped, if_neg hmapped]
    split_ifs <;> rfl

/-- The rules that contain an address are those whose bits begin it, in its family. -/
theorem mem_familyEntries (h : ∀ rule ∈ rules, rule.network.WellFormed) (a : Addr)
    {key : List Bool} {group : String} : (key, group) ∈ familyEntries a.unmap.is4 rules ∧
        key <+: bits a.unmap.bytes ↔
      ∃ rule ∈ rules, rule.network.contains a.bytes = true ∧ rule.network.key = key ∧ rule.group = group := by
  simp only [familyEntries, List.mem_map, List.mem_filter, decide_eq_true_eq, Prod.mk.injEq]
  have hfamily : ∀ rule ∈ rules, (decide (rule.network.number.1.length = 4) = a.unmap.is4 ↔
      a.unmap.bytes.length = rule.network.number.1.length) := by
    intro rule hrule
    have hlength := (h rule hrule).number.1
    have hlength' := a.unmap.length_bytes
    rw [Addr.is4, decide_eq_decide]
    omega
  constructor
  · rintro ⟨⟨rule, ⟨hrule, hfour⟩, rfl, rfl⟩, hfront⟩
    refine ⟨rule, hrule, (IPNet.contains_iff (h rule hrule) _).mpr ?_, rfl, rfl⟩
    rw [← bytes_unmap]
    exact ⟨(hfamily rule hrule).mp hfour, hfront⟩
  · rintro ⟨rule, hrule, hcontains, rfl, rfl⟩
    have hiff := (IPNet.contains_iff (h rule hrule) _).mp hcontains
    rw [← bytes_unmap] at hiff
    exact ⟨⟨rule, ⟨hrule, (hfamily rule hrule).mpr hiff.1⟩, rfl, rfl⟩, hiff.2⟩

/-- What the rules say of an address: the group of the longest network that contains it. -/
def Longest (rules : List PrefixRule) (ip : List UInt8) (group : String) : Prop :=
  (∃ rule ∈ rules, rule.network.contains ip = true ∧ rule.group = group ∧
      ∀ rule' ∈ rules, rule'.network.contains ip = true → rule'.network.number.2 ≤ rule.network.number.2) ∨
    (∀ rule ∈ rules, rule.network.contains ip = false) ∧ group = ""

/-- **The longest network decides.** -/
theorem matchPrefixGroup_spec {rules : CompiledRules} (h : Compiled netip rules.prefixRules)
    (hmatcher : rules.prefixMatcher = newReturnRoutePrefixMatcher netip rules.prefixRules) {value : String}
    {a : Addr} (ha : netip.parseAddr (trimSpace value) = some a) :
    Longest rules.prefixRules a.bytes (rules.matchPrefixGroup netip value) := by
  have hnode : (if a.unmap.is4 then rules.prefixMatcher.v4 else rules.prefixMatcher.v6) =
      BitTrie.nil.insertAll (familyEntries a.unmap.is4 rules.prefixRules) := by
    rw [hmatcher, newReturnRoutePrefixMatcher_eq h.wellFormed]
    cases a.unmap.is4 <;> rfl
  have hfind : ∀ key group, (BitTrie.nil.insertAll (familyEntries a.unmap.is4 rules.prefixRules)).find? key =
      some group ↔ (key, group) ∈ familyEntries a.unmap.is4 rules.prefixRules :=
    fun key group => BitTrie.find?_insertAll (h.nodup_keys _) key group
  have hcontains : ∀ rule ∈ rules.prefixRules, rule.network.contains a.bytes = true →
      rule.network.key <+: bits a.unmap.bytes ∧
        (BitTrie.nil.insertAll (familyEntries a.unmap.is4 rules.prefixRules)).find? rule.network.key =
          some rule.group := by
    intro rule hrule hin
    obtain ⟨hmem, hfront⟩ := (mem_familyEntries h.wellFormed a).mpr ⟨rule, hrule, hin, rfl, rfl⟩
    exact ⟨hfront, (hfind _ _).mpr hmem⟩
  rw [CompiledRules.matchPrefixGroup, ha]
  dsimp only
  rw [hnode]
  rcases BitTrie.longest_spec (BitTrie.nil.insertAll (familyEntries a.unmap.is4 rules.prefixRules)) none
    (bits a.unmap.bytes) with ⟨heq, hnone⟩ | ⟨key, group, hfront, hkey, heq, hmax⟩
  · refine .inr ⟨fun rule hrule => ?_, by rw [heq]; rfl⟩
    by_contra hin
    obtain ⟨hfront, hsome⟩ := hcontains rule hrule (Bool.eq_true_of_not_eq_false hin)
    rw [hnone _ hfront] at hsome
    cases hsome
  · obtain ⟨rule, hrule, hin, rfl, rfl⟩ := (mem_familyEntries h.wellFormed a).mp ⟨(hfind _ _).mp hkey, hfront⟩
    refine .inl ⟨rule, hrule, hin, by rw [heq]; rfl, fun rule' hrule' hin' => ?_⟩
    by_contra hlt
    obtain ⟨hfront', hsome⟩ := hcontains rule' hrule' hin'
    rw [hmax _ hfront' (by rw [IPNet.key, IPNet.key, length_firstBits, length_firstBits]; omega)] at hsome
    cases hsome

/-- The order in which the networks are inserted does not matter. -/
theorem matchPrefixGroup_perm {rules rules' : CompiledRules} (h : Compiled netip rules.prefixRules)
    (hperm : rules'.prefixRules.Perm rules.prefixRules)
    (hmatcher : rules.prefixMatcher = newReturnRoutePrefixMatcher netip rules.prefixRules)
    (hmatcher' : rules'.prefixMatcher = newReturnRoutePrefixMatcher netip rules'.prefixRules)
    (value : String) : rules'.matchPrefixGroup netip value = rules.matchPrefixGroup netip value := by
  have h' : Compiled netip rules'.prefixRules :=
    ⟨fun rule hrule => h.wellFormed rule (hperm.mem_iff.mp hrule), (hperm.map _).nodup_iff.mpr h.nodup⟩
  have hfind : ∀ four key, (BitTrie.nil.insertAll (familyEntries four rules'.prefixRules)).find? key =
      (BitTrie.nil.insertAll (familyEntries four rules.prefixRules)).find? key := by
    intro four key
    ext group
    rw [BitTrie.find?_insertAll (h'.nodup_keys four), BitTrie.find?_insertAll (h.nodup_keys four)]
    exact ((hperm.filter _).map _).mem_iff
  rw [CompiledRules.matchPrefixGroup, CompiledRules.matchPrefixGroup, hmatcher, hmatcher',
    newReturnRoutePrefixMatcher_eq h.wellFormed, newReturnRoutePrefixMatcher_eq h'.wellFormed]
  cases netip.parseAddr (trimSpace value) with
  | none => rfl
  | some a =>
    dsimp only
    cases a.unmap.is4
    · exact congrArg (Option.getD · "") (BitTrie.longest_congr (hfind false) _)
    · exact congrArg (Option.getD · "") (BitTrie.longest_congr (hfind true) _)

/-! ### Documents that are accepted -/

theorem getD_fillKey (t : Table String (List String)) (key group : String) :
    ((fillKey [] t key).find? group).getD [] = (t.find? group).getD [] := by
  unfold fillKey
  split_ifs with hkey
  · rfl
  · rw [Table.find?_upsert]
    by_cases hg : group = key
    · subst hg
      rw [if_pos rfl, Option.not_isSome_iff_eq_none.mp hkey]
      rfl
    · rw [if_neg hg]

theorem configured_fillOptional (document : RuleDocument) (rule : PrefixRule) :
    Configured netip (fillOptionalReturnRouteRules document).prefixGroups rule ↔
      Configured netip document.prefixGroups rule := by
  have hfill : ∀ group, ((fillOptionalReturnRouteRules document).prefixGroups.find? group).getD [] =
      (document.prefixGroups.find? group).getD [] := by
    intro group
    simp only [fillOptionalReturnRouteRules, optionalReturnRouteASNGroups, List.foldl_cons, List.foldl_nil,
      getD_fillKey]
  simp only [Configured, mem_grouped, hfill]

theorem compileReturnRouteRules_spec {document : RuleDocument} {base : CompiledRules}
    (h : compileReturnRouteRules netip document = .ok base) :
    Compiled netip base.prefixRules ∧ (∀ rule, rule ∈ base.prefixRules ↔ Configured netip document.prefixGroups rule) ∧
      base.prefixMatcher = newReturnRoutePrefixMatcher netip base.prefixRules := by
  unfold compileReturnRouteRules at h
  split_ifs at h
  simp only [bind_eq_ok] at h
  obtain ⟨-, -, -, -, -, -, customLines, -, -, -, compiled, hcompiled, -, -, h⟩ := h
  cases h
  obtain ⟨hmem, -⟩ := compilePrefixes_spec hcompiled
  exact ⟨compiled_of_compilePrefixes hcompiled,
    fun rule => (hmem rule).trans (configured_fillOptional _ rule), rfl⟩

theorem compileReturnRouteBGPRules_spec {document : BGPRuleDocument} {bgp : CompiledBGPRules}
    (h : compileReturnRouteBGPRules netip document = .ok bgp) :
    ∃ prefixGroups compiled, document.prefixGroups = some prefixGroups ∧
      compilePrefixes netip "BGP " prefixGroups = .ok compiled ∧ bgp.prefixGroups = compiled.prefixGroups ∧
        bgp.texts = compiled.texts := by
  rw [compileReturnRouteBGPRules] at h
  by_cases hversion : document.schemaVersion ≠ returnRouteRuleSchemaVersion
  · rw [if_pos hversion] at h
    cases h
  rw [if_neg hversion] at h
  cases hgenerated : document.generatedAt with
  | none => rw [hgenerated] at h; cases h
  | some generatedAt =>
    simp only [hgenerated] at h
    by_cases hsource : trimSpace document.source = ""
    · rw [if_pos hsource] at h
      cases h
    rw [if_neg hsource] at h
    cases hgroups : document.prefixGroups with
    | none => rw [hgroups] at h; cases h
    | some prefixGroups =>
      rw [hgroups] at h
      obtain ⟨-, -, h⟩ := bind_eq_ok.mp h
      obtain ⟨compiled, hcompiled, h⟩ := bind_eq_ok.mp h
      cases h
      exact ⟨prefixGroups, compiled, rfl, hcompiled, rfl, rfl⟩

/-- A BGP document has a network in a group. -/
def ConfiguredBGP (netip : NetipPackage) (document : Option BGPRuleDocument) (rule : PrefixRule) : Prop :=
  ∃ d prefixGroups, document = some d ∧ d.prefixGroups = some prefixGroups ∧
    Configured netip prefixGroups rule

/-- Of the rules that are merged from documents, the longest network that contains an address decides, and
the operator's where both have it; the order of the networks does not matter, and the rules of the operator
stay. -/
structure LongestDecides (netip : NetipPackage) (document : RuleDocument) (bgpDocument : Option BGPRuleDocument)
    (base : CompiledRules) (bgp : Option CompiledBGPRules) : Prop where
  /-- An address in a network. -/
  inside : ∀ value a, netip.parseAddr (trimSpace value) = some a →
    ∀ rule, Configured netip document.prefixGroups rule ∨ ConfiguredBGP netip bgpDocument rule →
      rule.network.contains a.bytes = true →
      ∃ best, (Configured netip document.prefixGroups best ∨ ConfiguredBGP netip bgpDocument best ∧
          ∀ manual, Configured netip document.prefixGroups manual →
            manual.network.string netip ≠ best.network.string netip) ∧
        best.network.contains a.bytes = true ∧
        (∀ other, Configured netip document.prefixGroups other ∨ ConfiguredBGP netip bgpDocument other →
          other.network.contains a.bytes = true → other.network.number.2 ≤ best.network.number.2) ∧
        (mergeReturnRouteRules netip base bgp).matchPrefixGroup netip value = best.group
  /-- An address in no network. -/
  outside : ∀ value a, netip.parseAddr (trimSpace value) = some a →
    (∀ rule, Configured netip document.prefixGroups rule ∨ ConfiguredBGP netip bgpDocument rule →
      rule.network.contains a.bytes = false) →
        (mergeReturnRouteRules netip base bgp).matchPrefixGroup netip value = ""
  /-- The order of the networks. -/
  perm : ∀ rules : CompiledRules, rules.prefixRules.Perm (mergeReturnRouteRules netip base bgp).prefixRules →
    rules.prefixMatcher = newReturnRoutePrefixMatcher netip rules.prefixRules →
      ∀ value, rules.matchPrefixGroup netip value =
        (mergeReturnRouteRules netip base bgp).matchPrefixGroup netip value
  /-- The rules of the operator: each update is merged into them, not into what was merged before. -/
  keeps : ∀ (s : RuleState) (updates : List CompiledBGPRules),
    (updates.foldl (fun s compiled => s.activate netip (.bgp compiled)) s).base = s.base ∧
      ∀ last ∈ updates.getLast?, (updates.foldl (fun s compiled => s.activate netip (.bgp compiled)) s).active =
        mergeReturnRouteRules netip s.base (some last)

theorem mergeReturnRouteRules_spec {document : RuleDocument} {base : CompiledRules}
    (h : compileReturnRouteRules netip document = .ok base) {bgpDocument : Option BGPRuleDocument}
    {bgp : Option CompiledBGPRules}
    (hbgp : Option.Rel (fun d compiled => compileReturnRouteBGPRules netip d = .ok compiled) bgpDocument bgp) :
    Compiled netip (mergeReturnRouteRules netip base bgp).prefixRules ∧
      (mergeReturnRouteRules netip base bgp).prefixMatcher =
        newReturnRoutePrefixMatcher netip (mergeReturnRouteRules netip base bgp).prefixRules ∧
      (∀ rule ∈ (mergeReturnRouteRules netip base bgp).prefixRules,
        Configured netip document.prefixGroups rule ∨ ConfiguredBGP netip bgpDocument rule ∧
          ∀ manual, Configured netip document.prefixGroups manual →
            manual.network.string netip ≠ rule.network.string netip) ∧
      ∀ rule, Configured netip document.prefixGroups rule ∨ ConfiguredBGP netip bgpDocument rule →
        rule.network.WellFormed ∧ rule.network.string netip ∈
          networkTexts netip (mergeReturnRouteRules netip base bgp).prefixRules := by
  obtain ⟨hcompiled, hmem, hmatcher⟩ := compileReturnRouteRules_spec h
  cases hbgp with
  | none =>
    refine ⟨hcompiled, hmatcher, fun rule hrule => .inl ((hmem rule).mp hrule), ?_⟩
    rintro rule (hrule | ⟨d, prefixGroups, hd, -⟩)
    · exact ⟨hrule.wellFormed, mem_networkTexts rule ((hmem rule).mpr hrule)⟩
    · cases hd
  | @some d compiled hcompile =>
    obtain ⟨prefixGroups, prefixes, hgroups, hprefixes, hpg, htexts⟩ := compileReturnRouteBGPRules_spec hcompile
    obtain ⟨hbgpmem, -⟩ := compilePrefixes_spec hprefixes
    have hentries : ∀ rule : PrefixRule, (∃ text, (rule.group, rule.network, text) ∈ compiled.entries) ↔
        Configured netip prefixGroups rule := fun rule =>
      (mem_entries hprefixes hpg htexts).trans (hbgpmem rule)
    have hstart : Merges netip (base.prefixRules.map fun rule => rule.network.string netip, base) :=
      ⟨fun _ => Iff.rfl, hcompiled⟩
    obtain ⟨hmerges, hsub, hnew, hall⟩ := foldl_mergePrefix compiled.entries (fun entry hentry =>
      ((hentries ⟨entry.1, entry.2.1⟩).mp ⟨entry.2.2, hentry⟩).wellFormed) hstart
    have hmerge : (mergeReturnRouteRules netip base (some compiled)).prefixRules = (compiled.entries.foldl
        (mergePrefix netip) (base.prefixRules.map fun rule => rule.network.string netip, base)).2.prefixRules := rfl
    refine ⟨hmerges.compiled, rfl, fun rule hrule => ?_, ?_⟩
    · rcases hnew rule hrule with hbase | ⟨hentry, htext⟩
      · exact .inl ((hmem rule).mp hbase)
      · refine .inr ⟨⟨d, prefixGroups, rfl, hgroups, (hentries rule).mp hentry⟩, fun manual hmanual heq => ?_⟩
        rw [← heq] at htext
        exact htext (mem_networkTexts manual ((hmem manual).mpr hmanual))
    · rw [hmerge]
      rintro rule (hrule | ⟨d', prefixGroups', hd', hgroups', hrule⟩)
      · exact ⟨hrule.wellFormed, mem_networkTexts rule (hsub ((hmem rule).mpr hrule))⟩
      · cases hd'
        cases hgroups.symm.trans hgroups'
        obtain ⟨text, hentry⟩ := (hentries rule).mpr hrule
        exact ⟨hrule.wellFormed, hall (rule.group, rule.network, text) hentry⟩

/-- Updates leave the rules of the operator, and the last one is merged into them. -/
theorem foldl_activate (s : RuleState) (updates : List CompiledBGPRules) :
    (updates.foldl (fun s compiled => s.activate netip (.bgp compiled)) s).base = s.base ∧
      ∀ last ∈ updates.getLast?, (updates.foldl (fun s compiled => s.activate netip (.bgp compiled)) s).active =
        mergeReturnRouteRules netip s.base (some last) := by
  induction updates using List.reverseRecOn with
  | nil => exact ⟨rfl, fun last hlast => nomatch hlast⟩
  | append_singleton updates compiled ih =>
    rw [List.foldl_append, List.foldl_cons, List.foldl_nil, List.getLast?_concat]
    refine ⟨ih.1, fun last hlast => ?_⟩
    cases hlast
    exact congrArg (mergeReturnRouteRules netip · (some compiled)) ih.1

/-- A network contains what another one with its text contains. -/
theorem contains_eq_of_string_eq {n n' : IPNet} (h : n.WellFormed) (h' : n'.WellFormed)
    (heq : n.string netip = n'.string netip) (ip : List UInt8) : n.contains ip = n'.contains ip := by
  simp only [IPNet.contains, number_eq_of_string_eq h h' heq]

/-- **The longest network that contains an address decides**, for all documents that are accepted. -/
theorem matchPrefixGroup_longest {document : RuleDocument} {base : CompiledRules}
    (h : compileReturnRouteRules netip document = .ok base) {bgpDocument : Option BGPRuleDocument}
    {bgp : Option CompiledBGPRules}
    (hbgp : Option.Rel (fun d compiled => compileReturnRouteBGPRules netip d = .ok compiled) bgpDocument bgp) :
    LongestDecides netip document bgpDocument base bgp := by
  obtain ⟨hcompiled, hmatcher, hrules, htexts⟩ := mergeReturnRouteRules_spec h hbgp
  -- a configured network has a rule with its text
  have hrule : ∀ rule, Configured netip document.prefixGroups rule ∨ ConfiguredBGP netip bgpDocument rule →
      ∃ rule' ∈ (mergeReturnRouteRules netip base bgp).prefixRules,
        rule'.network.number = rule.network.number ∧
          ∀ ip, rule'.network.contains ip = rule.network.contains ip := by
    intro rule hconfigured
    obtain ⟨hwf, htext⟩ := htexts rule hconfigured
    obtain ⟨rule', hmem, heq⟩ := List.mem_map.mp htext
    have hwf' := hcompiled.wellFormed rule' hmem
    exact ⟨rule', hmem, number_eq_of_string_eq hwf' hwf heq, contains_eq_of_string_eq hwf' hwf heq⟩
  refine ⟨fun value a ha rule hconfigured hin => ?_, fun value a ha hout => ?_, fun rules hperm hm value => ?_,
    foldl_activate⟩
  · rcases matchPrefixGroup_spec hcompiled hmatcher ha with ⟨best, hbest, hcontains, hgroup, hmax⟩ | ⟨hnone, -⟩
    · refine ⟨best, hrules best hbest, hcontains, fun other hother hin' => ?_, hgroup.symm⟩
      obtain ⟨rule', hmem, hnumber, heq⟩ := hrule other hother
      rw [← hnumber]
      exact hmax rule' hmem ((heq _).trans hin')
    · obtain ⟨rule', hmem, -, heq⟩ := hrule rule hconfigured
      rw [← heq, hnone rule' hmem] at hin
      cases hin
  · rcases matchPrefixGroup_spec hcompiled hmatcher ha with ⟨best, hbest, hcontains, -⟩ | ⟨-, hempty⟩
    · have hconfigured := (hrules best hbest).imp_right And.left
      rw [hout best hconfigured] at hcontains
      cases hcontains
    · exact hempty
  · exact matchPrefixGroup_perm hcompiled hperm hmatcher hm value

/-! ### Nested networks -/

def knownAddresses : List (String × List UInt8) :=
  [("10.0.0.0", [10, 0, 0, 0]), ("10.1.0.0", [10, 1, 0, 0]), ("10.1.2.3", [10, 1, 2, 3])]

/-- The text of an address; other ones are written with a character for each byte. -/
def knownText (bytes : List UInt8) : String :=
  ((knownAddresses.find? fun known => known.2 = bytes).map Prod.fst).getD
    (String.ofList (bytes.map fun b => Char.ofNat b.toNat))

def knownBytes (s : String) : List UInt8 :=
  ((knownAddresses.find? fun known => known.1 = s).map Prod.snd).getD
    (s.toList.map fun c => UInt8.ofNat c.toNat)

theorem ofNat_toNat_ofNat (b : UInt8) : UInt8.ofNat (Char.ofNat b.toNat).toNat = b := by
  have hvalid : b.toNat.isValidChar := .inl (b.toNat_lt.trans (by decide))
  rw [Char.ofNat, dif_pos hvalid]
  exact UInt8.ofNat_toNat

theorem knownBytes_knownText {bytes : List UInt8} (h : bytes.length = 4 ∨ bytes.length = 16) :
    knownBytes (knownText bytes) = bytes := by
  unfold knownText
  cases hfind : knownAddresses.find? fun known => known.2 = bytes with
  | some known =>
    have hmem := List.mem_of_find?_eq_some hfind
    have heq := List.find?_some hfind
    obtain rfl := of_decide_eq_true heq
    simp only [Option.map_some, Option.getD_some]
    clear hfind h
    revert known
    decide
  | none =>
    -- no text of the table is as long
    have hnone : (knownAddresses.find? fun known =>
        known.1 = String.ofList (bytes.map fun b => Char.ofNat b.toNat)) = none := by
      refine List.find?_eq_none.mpr fun known hknown heq => ?_
      have hlength := congrArg (fun s => s.toList.length) (of_decide_eq_true heq)
      simp only [knownAddresses, List.mem_cons, List.not_mem_nil, or_false] at hknown
      rcases hknown with rfl | rfl | rfl <;> simp at hlength <;> omega
    simp [knownBytes, hnone, Function.comp_def, ofNat_toNat_ofNat]

/-- Package `netip`, as far as the addresses of the table go. -/
def knownNetip : NetipPackage where
  parseAddr s :=
    if h : (knownBytes s).length = 4 ∨ (knownBytes s).length = 16 then some ⟨knownBytes s, "", h⟩ else none
  string a := knownText a.bytes
  parseAddr_string a hzone := by
    obtain ⟨bytes, zone, hlength⟩ := a
    subst hzone
    simp only [knownBytes_knownText hlength, dif_pos hlength]

/-- The operator has `10.0.0.0/8` in a group. -/
def nestedRules : RuleDocument where
  schemaVersion := 1
  ruleVersion := "1"
  asnGroups := Table.upsertAll ∅ (coreReturnRouteASNGroups.map (·, []))
  prefixGroups :=
    (Table.upsertAll ∅ (coreReturnRouteASNGroups.map (·, []))).upsert "cmi" ["10.0.0.0/8"]
  confidence := Table.upsertAll ∅ (coreReturnRouteConfidence.map (·, 1 / 2))
  customLines := ∅

/-- A BGP document has `10.1.0.0/16` in another one. -/
def nestedBGPRules : BGPRuleDocument where
  schemaVersion := 1
  generatedAt := some 1
  source := "bgp"
  prefixGroups :=
    some ((Table.upsertAll ∅ (coreReturnRouteASNGroups.map (·, []))).upsert "cmnet" ["10.1.0.0/16"])

theorem matchPrefixGroup_nested : ∃ base bgp,
    compileReturnRouteRules knownNetip nestedRules = .ok base ∧
      compileReturnRouteBGPRules knownNetip nestedBGPRules = .ok bgp ∧
        LongestDecides knownNetip nestedRules (some nestedBGPRules) base (some bgp) := by
  cases h : compileReturnRouteRules knownNetip nestedRules with
  | error e =>
    have hok : (compileReturnRouteRules knownNetip nestedRules).toBool = true := by decide +kernel
    rw [h] at hok
    cases hok
  | ok base =>
    cases hbgp : compileReturnRouteBGPRules knownNetip nestedBGPRules with
    | error e =>
      have hok : (compileReturnRouteBGPRules knownNetip nestedBGPRules).toBool = true := by decide +kernel
      rw [hbgp] at hok
      cases hok
    | ok bgp => exact ⟨base, bgp, rfl, rfl, matchPrefixGroup_longest h (.some hbgp)⟩

end ReturnRoute

end Komari
