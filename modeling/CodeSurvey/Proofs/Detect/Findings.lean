import CodeSurvey.Proofs.Detect.Disabling

/-!
# The findings of a rule in a report

A bank of rules reports what its rules find, rule by rule, and each finding has the name of its rule.
So in a report the findings with the name of a rule are what this rule finds, if no other rule of the
bank has the name.
-/

namespace CodeSurvey

theorem Rule.name_of_mem_findings {rule : Rule} {scene : Scene} {f : Finding}
    (h : f ∈ rule.findings scene) : f.name = rule.name :=
  rule.signs_detector scene _ rfl f h

/-- Of the findings of rules with different names, those with the name of a rule are its own. -/
theorem filter_findings {rules : List Rule} {rule : Rule} {scene : Scene}
    (hnames : (rules.map (·.name)).Nodup) (hrule : rule ∈ rules) :
    (rules.flatMap (·.findings scene)).filter (·.name = rule.name) = rule.findings scene := by
  have hother {other : Rule} (hne : other.name ≠ rule.name) :
      (other.findings scene).filter (·.name = rule.name) = [] := by
    rw [List.filter_eq_nil_iff]
    intro f hf
    rw [other.name_of_mem_findings hf]
    simpa using hne
  induction rules with
  | nil => cases hrule
  | cons first rest ih =>
    rw [List.map_cons, List.nodup_cons] at hnames
    rw [List.flatMap_cons, List.filter_append]
    rcases List.mem_cons.mp hrule with rfl | hrule
    · have hown : (rule.findings scene).filter (·.name = rule.name) = rule.findings scene := by
        rw [List.filter_eq_self]
        intro f hf
        exact decide_eq_true (rule.name_of_mem_findings hf)
      have hrest : (rest.flatMap (·.findings scene)).filter (·.name = rule.name) = [] := by
        rw [List.filter_flatMap, List.flatMap_eq_nil_iff]
        intro other hmem
        apply hother
        intro heq
        exact hnames.1 (heq ▸ List.mem_map_of_mem hmem)
      rw [hown, hrest, List.append_nil]
    · have hfirst : first.name ≠ rule.name := by
        intro heq
        exact hnames.1 (heq ▸ List.mem_map_of_mem hrule)
      rw [hother hfirst, ih hnames.2 hrule, List.nil_append]

/-- After detection, the findings with the name of a rule are what the rule finds. -/
theorem Report.findingsNamed_detect {r : Report} {settings : DetectorSettings} {scene : Scene}
    {name : String} {rules : List Rule} {rule : Rule} (hr : r.findings = [])
    (hnames : (rules.map (·.name)).Nodup) (hrule : rule ∈ rules)
    (henabled : isDisabled settings.disabled rule.name = false) :
    (r.detect settings (.ofRules name rules) scene).findingsNamed rule.name =
      rule.findings { scene with margin := settings.margin } := by
  obtain ⟨errors, hdetect⟩ := r.detect_eq settings (.ofRules name rules) scene
  rw [hdetect, findingsNamed, hr, List.nil_append, Bank.run_without_ofRules]
  apply filter_findings
  · exact hnames.sublist (List.filter_sublist.map _)
  · exact List.mem_filter.mpr ⟨hrule, by simp [henabled]⟩

/-- After detection, a finding with the name of a rule is one that the rule makes, unless the rule is
left out. -/
theorem Report.mem_findingsNamed_detect {r : Report} {settings : DetectorSettings} {scene : Scene}
    {name : String} {rules : List Rule} {rule : Rule} {f : Finding} (hr : r.findings = [])
    (hnames : (rules.map (·.name)).Nodup) (hrule : rule ∈ rules) :
    f ∈ (r.detect settings (.ofRules name rules) scene).findingsNamed rule.name ↔
      isDisabled settings.disabled rule.name = false ∧
        f ∈ rule.findings { scene with margin := settings.margin } := by
  cases henabled : isDisabled settings.disabled rule.name with
  | false => rw [findingsNamed_detect hr hnames hrule henabled, eq_self, true_and]
  | true =>
    obtain ⟨errors, hdetect⟩ := r.detect_eq settings (.ofRules name rules) scene
    rw [hdetect, findingsNamed, hr, List.nil_append, Bank.run_without_ofRules]
    constructor
    · intro hf
      obtain ⟨hmem, hname⟩ := List.mem_filter.mp hf
      obtain ⟨other, hother, hfound⟩ := List.mem_flatMap.mp hmem
      have hkept := (List.mem_filter.mp hother).2
      rw [← other.name_of_mem_findings hfound, of_decide_eq_true hname, henabled] at hkept
      cases hkept
    · rintro ⟨hfalse, -⟩
      cases hfalse

/-- Items can be taken away without a loss just if none of them gives anything. -/
theorem perm_filterMap_filter_iff {α β : Type} {f : α → Option β} {p : α → Bool} {items : List α} :
    ((items.filter p).filterMap f).Perm (items.filterMap f) ↔
      ∀ x ∈ items, (f x).isSome → p x := by
  constructor
  · intro hperm x hx hsome
    have hsublist : (items.filter fun x => (f x).isSome && p x).Sublist
        (items.filter fun x => (f x).isSome) :=
      List.monotone_filter_right items fun x hx => (Bool.and_eq_true_iff.mp hx).1
    have hlength := hperm.length_eq
    rw [List.length_filterMap_eq_countP, List.length_filterMap_eq_countP, List.countP_filter,
      List.countP_eq_length_filter, List.countP_eq_length_filter] at hlength
    have hmem : x ∈ items.filter fun x => (f x).isSome := List.mem_filter.mpr ⟨hx, hsome⟩
    rw [← hsublist.eq_of_length hlength] at hmem
    exact (Bool.and_eq_true_iff.mp (List.mem_filter.mp hmem).2).2
  · intro hall
    rw [List.filterMap_filter]
    refine List.Perm.of_eq (List.filterMap_congr fun x hx => ?_)
    split
    · rfl
    · next hp =>
      exact (Option.not_isSome_iff_eq_none.mp fun hsome => hp (hall x hx hsome)).symm

end CodeSurvey
