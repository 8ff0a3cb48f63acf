import QucsNetlist.Flatten

/-! # What an accepted netlist conforms to

The line checks of `netlist_checker_intern` (`check_netlist.cpp:1433-1509`) hold every line
against the catalog entry of its type: the node count (`checker_count_nodes`), how often each
required and optional property occurs (`checker_find_property`), that every property is one of
the entry's (`checker_is_property`), and, per descriptor, that a number holds a single value
unless lists are allowed and that an identifier is given where one is asked for
(`checker_value_in_prop_range`). They read of a line only its form: type, action flag, node
count, and the key, identifier and list-ness of each property. Every later pass keeps the
forms, the expansion copies them, so a run without error leaves only lines whose forms conform
and whose annotation is their entry.
-/

namespace QucsNetlist

/-- The node counts a catalog entry admits: those `checkNodes` reports nothing for. -/
def NodeCount.admits : NodeCount → Nat → Bool
  | .atLeastOne, n => 1 ≤ n
  | .exactly k, n => k == n

/-- A property form as a descriptor of its key admits it, the ranges apart: a number holds a
single value unless the descriptor allows a list, and an identifier is given where the
descriptor is not numeric. -/
def Property.admits (p : Property) (q : PairForm) : Bool :=
  if p.isVal then p.isLst || q.single else q.ident.isSome

/-- What the catalog checks read of a line: its type and action flag, its node count and the
forms of its properties. -/
structure Form where
  type : String
  action : Bool
  nodes : Nat
  pairs : List PairForm
  deriving DecidableEq, Repr

/-- The form of a line. -/
def Definition.form (d : Definition) : Form :=
  ⟨d.type, d.action, d.nodes.length, d.pairs.map Pair.form⟩

/-- A property form entry `a` accepts: one of its properties, admitted by each descriptor of
its key. -/
def PairForm.Admitted (a : Define) (q : PairForm) : Prop :=
  checkerIsProperty a q.key = true ∧
    ∀ p ∈ a.required ++ a.optional, p.key = q.key → p.admits q = true

/-- A line form as the checks of catalog entry `a` accept it, the ranges and the resolution of
identifiers apart: `a` admits its node count, each required property occurs once and each
optional one at most once, and each property is admitted. -/
structure Form.Conforms (a : Define) (f : Form) : Prop where
  nodes : a.nodes.admits f.nodes = true
  required : ∀ p ∈ a.required, f.pairs.countP (·.key == p.key) = 1
  optional : ∀ p ∈ a.optional, f.pairs.countP (·.key == p.key) ≤ 1
  admitted : ∀ q ∈ f.pairs, q.Admitted a

instance (a : Define) (q : PairForm) : Decidable (q.Admitted a) :=
  inferInstanceAs (Decidable (_ ∧ _))

instance (a : Define) (f : Form) : Decidable (f.Conforms a) :=
  decidable_of_iff (a.nodes.admits f.nodes = true ∧
      (∀ p ∈ a.required, f.pairs.countP (·.key == p.key) = 1) ∧
      (∀ p ∈ a.optional, f.pairs.countP (·.key == p.key) ≤ 1) ∧ ∀ q ∈ f.pairs, q.Admitted a)
    ⟨fun ⟨h1, h2, h3, h4⟩ => ⟨h1, h2, h3, h4⟩, fun h => ⟨h.1, h.2, h.3, h.4⟩⟩

/-- A line the catalog accepts: its type has an entry for its action flag, the line carries
that entry as its annotation, and its form conforms to it. -/
def Conformant (available : List Define) (d : Definition) : Prop :=
  ∃ a, checkerFindDefinition available d.type d.action = some a ∧ d.define = some a ∧
    d.form.Conforms a

/-- What the catalog conformance of a line reads: its form and its annotation. -/
def Definition.entryForm (d : Definition) : Form × Option Define := (d.form, d.define)

theorem Conformant.of_eq {available : List Define} {d e : Definition} (h : Conformant available d)
    (hf : e.form = d.form) (hd : e.define = d.define) : Conformant available e := by
  obtain ⟨a, ha, hda, hc⟩ := h
  have ht : e.type = d.type := congrArg Form.type hf
  have hact : e.action = d.action := congrArg Form.action hf
  exact ⟨a, by rw [ht, hact, ha], hd.trans hda, hf ▸ hc⟩

/-! ### One line -/

section Line

variable {a : Define}

theorem admits_of_checkNodes {d : Definition} {n : Nat} (h : (checkNodes a d n).errors = 0) :
    a.nodes.admits n = true := by
  unfold checkNodes at h
  cases ha : a.nodes with
  | atLeastOne =>
    rw [ha, Report.when_errors_eq_zero] at h
    simp only [NodeCount.admits, decide_eq_true_eq]
    simp only [decide_eq_false_iff_not] at h
    omega
  | exactly k =>
    rw [ha, Report.when_errors_eq_zero] at h
    simpa [NodeCount.admits] using h

theorem form_count (key : String) (ps : List Pair) :
    (ps.map Pair.form).countP (·.key == key) = checkerFindProperty key ps := by
  rw [List.countP_map]; rfl

theorem conforms_of_checkOccurrences {d : Definition} (h : (checkOccurrences a d).errors = 0) :
    (∀ p ∈ a.required, (d.pairs.map Pair.form).countP (·.key == p.key) = 1) ∧
      ∀ p ∈ a.optional, (d.pairs.map Pair.form).countP (·.key == p.key) ≤ 1 := by
  simp only [checkOccurrences, Report.append_errors, Nat.add_eq_zero,
    Report.concat_errors_eq_zero, List.forall_mem_map, Report.when_errors_eq_zero] at h
  refine ⟨fun p hp => ?_, fun p hp => ?_⟩ <;> rw [form_count]
  · simpa using h.1 p hp
  · have := h.2 p hp
    simp only [decide_eq_false_iff_not, not_le] at this
    omega

theorem admits_of_checkerValueInPropRange {inst : String} {pair : Pair} {p : Property}
    (h : (checkerValueInPropRange inst a pair p).errors = 0) : p.admits pair.form = true := by
  unfold checkerValueInPropRange at h
  unfold Property.admits
  simp only [Pair.form]
  split at h <;> rename_i hv <;> simp only [hv, if_true, if_false, Bool.false_eq_true]
  · simp only [Report.append_errors, Nat.add_eq_zero, Report.when_errors_eq_zero] at h
    have h1 := h.1.1
    revert h1
    cases p.isLst <;> cases pair.rest.isEmpty <;> decide
  · rw [Report.when_errors_eq_zero] at h
    simpa using h

theorem admitted_of_checkerValueInRange {inst : String} {pair : Pair}
    (h : (checkerValueInRange inst a pair).1 = true) :
    ∀ p ∈ a.required ++ a.optional, p.key = pair.key → p.admits pair.form = true := by
  simp only [checkerValueInRange, beq_iff_eq, Report.concat_errors_eq_zero, List.forall_mem_map]
    at h
  exact fun p hp hk =>
    admits_of_checkerValueInPropRange (h p (List.mem_filter.mpr ⟨hp, by simp [hk]⟩))

/-- A step of the pair loop never lowers the error count, and one that adds no error found the
key of the pair it read in the entry, its folded value in range and its identifier resolved. -/
theorem checkPair_errors (i j : Nat) (st : Report × List Definition) :
    st.1.errors ≤ (checkPair a i j st).1.errors ∧
      ∀ d q, st.2[i]? = some d → d.pairs[j]? = some q →
        (checkPair a i j st).1.errors = st.1.errors → checkerIsProperty a q.key = true ∧
          (checkerValueInRange d.instance a { q with value := checkerEvaluateScale q.value }).1 =
            true ∧ (checkerResolveVariable (setValueAt st.2 i j checkerEvaluateScale) i j).1 =
              true := by
  unfold checkPair
  cases hd : st.2[i]? with
  | none => exact ⟨le_rfl, fun _ _ h => absurd h (by simp)⟩
  | some d =>
    dsimp only
    cases hq : d.pairs[j]? with
    | none => exact ⟨le_rfl, fun _ _ h h' => by cases h; simp [hq] at h'⟩
    | some q =>
      dsimp only
      simp only [Report.append_errors]
      refine ⟨by omega, fun d' q' h h' h0 => ?_⟩
      cases h
      rw [hq] at h'
      cases h'
      split_ifs at h0 with hr hv <;> try omega
      have hx : (!checkerIsProperty a q.key) = false := by
        rw [← Report.when_errors_eq_zero (m := .extraneous d.line q.key d.type d.instance)]
        omega
      exact ⟨by simpa using hx, hr, hv⟩

theorem pairLoop_errors_le (i : Nat) (ks : List Nat) (st : Report × List Definition) :
    st.1.errors ≤ (ks.foldl (fun st j => checkPair a i j st) st).1.errors :=
  foldl_induct (fun s : Report × List Definition => st.1.errors ≤ s.1.errors)
    (fun s j h => h.trans (checkPair_errors i j s).1) ks st le_rfl

/-- A pair loop that adds no error admitted every pair of the line it read. -/
theorem pairLoop_admitted {i : Nat} {fs : List PairForm} :
    ∀ (k : Nat) (st : Report × List Definition),
      st.2[i]?.map (fun e => e.pairs.map Pair.form) = some fs →
      ((List.range k).foldl (fun st j => checkPair a i j st) st).1.errors ≤ st.1.errors →
      ∀ j < k, ∀ q ∈ fs[j]?, q.Admitted a
  | 0, _, _, _, _, hj => absurd hj (Nat.not_lt_zero _)
  | k + 1, st, hst, hle, j, hj => by
    rw [List.range_succ, List.foldl_append, List.foldl_cons, List.foldl_nil] at hle
    have h1 := pairLoop_errors_le (a := a) i (List.range k) st
    obtain ⟨h2, h3⟩ := checkPair_errors (a := a) i k
      ((List.range k).foldl (fun st j => checkPair a i j st) st)
    by_cases hjk : j < k
    · exact pairLoop_admitted k st hst (by omega) j hjk
    intro q hq
    rw [show j = k by omega] at hq
    have hv := (congrArg (·[i]?) (foldl_inv
      (fun s : Report × List Definition => s.2.map fun e => e.pairs.map Pair.form)
      (fun s j => views_checkPair (V := fun e : Definition => e.pairs.map Pair.form)
        (fun _ _ h => h) a i j s) (List.range k) st)).trans (List.getElem?_map _ _ _)
    simp only [List.getElem?_map, hst] at hv
    obtain ⟨e, he, rfl⟩ := Option.map_eq_some'.mp hv
    rw [List.getElem?_map] at hq
    obtain ⟨q0, hq0, rfl⟩ := Option.map_eq_some'.mp hq
    obtain ⟨hx, hr, -⟩ := h3 e q0 he hq0 (by omega)
    exact ⟨hx, fun p hp hk => by simpa [Pair.form] using admitted_of_checkerValueInRange hr p hp hk⟩

/-- A line whose catalog checks count no error has an entry its form conforms to. -/
theorem checkLine_conforms {available : List Define} {root : List Definition} {i : Nat}
    {d : Definition} (hd : root[i]? = some d) (h0 : (checkLine available root i d).1.errors = 0) :
    ∃ a, checkerFindDefinition available d.type d.action = some a ∧ d.form.Conforms a := by
  unfold checkLine at h0
  cases ha : checkerFindDefinition available d.type d.action with
  | none => rw [ha] at h0; exact absurd h0 Nat.one_ne_zero
  | some a =>
    rw [ha] at h0
    dsimp only at h0
    have hinit := pairLoop_errors_le (a := a) i (List.range d.pairs.length)
      (checkNodes a d (checkerCountNodes d) ++ checkOccurrences a d, root.modify (annotate a) i)
    have hz : (checkNodes a d (checkerCountNodes d)).errors = 0 ∧
        (checkOccurrences a d).errors = 0 := by
      simp only [Report.append_errors] at hinit; omega
    obtain ⟨hreq, hopt⟩ := conforms_of_checkOccurrences hz.2
    refine ⟨a, rfl, admits_of_checkNodes hz.1, hreq, hopt, fun q hq => ?_⟩
    obtain ⟨j, hj⟩ := List.mem_iff_getElem?.mp (show q ∈ d.pairs.map Pair.form from hq)
    have hjl : j < d.pairs.length := by simpa using (List.getElem?_eq_some_iff.mp hj).1
    refine pairLoop_admitted (a := a) (i := i) d.pairs.length
      (checkNodes a d (checkerCountNodes d) ++ checkOccurrences a d, root.modify (annotate a) i)
      ?_ (by omega) j hjl q hj
    simp [List.getElem?_modify, hd, annotate]

end Line

/-! ### The line loop -/

section Loop

variable {available : List Define}

theorem checkLine_define (available : List Define) (root : List Definition) (i : Nat)
    (d : Definition) :
    (checkLine available root i d).2.map Definition.define =
      ((checkerFindDefinition available d.type d.action).elim root fun a =>
        root.modify (annotate a) i).map Definition.define := by
  unfold checkLine
  cases checkerFindDefinition available d.type d.action with
  | none => rfl
  | some a =>
    exact foldl_inv (fun s : Report × List Definition => s.2.map Definition.define)
      (fun s j => views_checkPair (V := Definition.define) (fun _ _ _ => rfl) a i j s) _ _

theorem checkDefinition_define (available : List Define) {st : Report × List Definition}
    {k : Nat} {d : Definition} (hd : st.2[k]? = some d) :
    (checkDefinition available st k).2.map Definition.define =
      ((checkerFindDefinition available d.type d.action).elim st.2 fun a =>
        st.2.modify (annotate a) k).map Definition.define := by
  unfold checkDefinition
  simp only [hd]
  exact (views_countDefinitionFrom (V := Definition.define) (fun _ => rfl) _ _ 0 _).trans
    (checkLine_define available st.2 k d)

theorem forms_checkDefinition (available : List Define) (st : Report × List Definition)
    (k : Nat) : (checkDefinition available st k).2.map Definition.form = st.2.map Definition.form :=
  views_checkDefinition (V := Definition.form) (fun _ => rfl)
    (fun d ps h => by simp only [Definition.form, h]) (fun _ _ => rfl) available st k

theorem checkDefinition_errors (available : List Define) (st : Report × List Definition)
    (k : Nat) : st.1.errors ≤ (checkDefinition available st k).1.errors ∧
      ∀ d, st.2[k]? = some d → (checkDefinition available st k).1.errors = 0 →
        (checkLine available st.2 k d).1.errors = 0 := by
  unfold checkDefinition
  cases hk : st.2[k]? with
  | none => exact ⟨le_rfl, fun _ h => absurd h (by simp)⟩
  | some d =>
    dsimp only
    simp only [Report.append_errors]
    exact ⟨by omega, fun d' h h0 => by cases h; omega⟩

/-- After `k` lines of the loop without error, each of the first `k` lines is conformant. -/
def LinesChecked (available : List Define) (k : Nat) (st : Report × List Definition) : Prop :=
  st.1.errors = 0 → ∀ i < k, ∀ e ∈ st.2[i]?, Conformant available e

theorem LinesChecked.step {k : Nat} {st : Report × List Definition}
    (h : LinesChecked available k st) :
    LinesChecked available (k + 1) (checkDefinition available st k) := by
  intro h0 i hi e he
  have he' : (checkDefinition available st k).2[i]? = some e := he
  obtain ⟨hle, hline⟩ := checkDefinition_errors available st k
  have hform := congrArg (·[i]?) (forms_checkDefinition available st k)
  simp only [List.getElem?_map, he', Option.map_some'] at hform
  obtain ⟨e0, he0, hee⟩ := Option.map_eq_some'.mp hform.symm
  have hprev : i < k → Conformant available e0 := fun hik => h (by omega) i hik e0 he0
  cases hk : st.2[k]? with
  | none =>
    rw [checkDefinition_of_none hk, he0] at he'
    cases he'
    exact hprev (lt_of_le_of_ne (by omega) fun h => by rw [h, hk] at he0; cases he0)
  | some d =>
    obtain ⟨a, ha, hc⟩ := checkLine_conforms hk (hline d hk h0)
    have hdef := congrArg (·[i]?) (checkDefinition_define available hk)
    simp only [List.getElem?_map, he', ha, Option.elim, Option.map_some'] at hdef
    by_cases hik : i = k
    · subst hik
      rw [List.getElem?_modify_eq, hk] at hdef
      rw [hk] at he0
      cases he0
      refine ⟨a, ?_, by simpa [annotate] using hdef, hee ▸ hc⟩
      rw [show e.type = e0.type from congrArg Form.type hee.symm,
        show e.action = e0.action from congrArg Form.action hee.symm, ha]
    · rw [List.getElem?_modify_ne _ _ (Ne.symm hik), he0] at hdef
      exact (hprev (by omega)).of_eq hee.symm (by simpa using hdef)

theorem linesChecked (available : List Define) (root : List Definition) :
    ∀ k, LinesChecked available k ((List.range k).foldl (checkDefinition available) ({}, root))
  | 0 => fun _ _ hi => absurd hi (Nat.not_lt_zero _)
  | k + 1 => by
    rw [List.range_succ, List.foldl_append]
    exact (linesChecked available root k).step

end Loop

theorem Conformant.of_entryForm {available : List Define} {d e : Definition}
    (h : Conformant available d) (he : e.entryForm = d.entryForm) : Conformant available e :=
  h.of_eq (congrArg Prod.fst he) (congrArg Prod.snd he)

theorem conformant_of_map {available : List Define} {l l' : List Definition}
    (h : l'.map Definition.entryForm = l.map Definition.entryForm)
    (hl : ∀ e ∈ l, Conformant available e) : ∀ e ∈ l', Conformant available e := fun _ he =>
  let ⟨e0, he0, hee⟩ := List.mem_map.mp (h ▸ List.mem_map_of_mem Definition.entryForm he)
  (hl e0 he0).of_entryForm hee.symm

/-! ### The pass -/

section Pass

variable {available : List Define} {fuel : Nat}

/-- The lines `netlist_checker_intern` returns are those its line loop leaves, up to the
duplicate marks of the substrate and nodeset checks, and the errors of the loop count in its
report. -/
theorem netlistCheckerIntern_lines {regOf : List Definition → List Definition}
    {root : List Definition} {r : Report × Option Nat × List Definition}
    (h : netlistCheckerIntern available regOf fuel root = .ok r) :
    ((List.range root.length).foldl (checkDefinition available) ({}, root)).1.errors ≤
        r.1.errors ∧
      ((List.range root.length).foldl (checkDefinition available) ({}, root)).2.length =
        root.length ∧
      ∀ {β : Type} {V : Definition → β}, (∀ d : Definition, V { d with duplicate := true } = V d) →
        r.2.2.map V =
          ((List.range root.length).foldl (checkDefinition available) ({}, root)).2.map V := by
  unfold netlistCheckerIntern at h
  obtain ⟨subs, -, h⟩ := bind_eq_ok.mp h
  obtain ⟨nodesets, hn, h⟩ := bind_eq_ok.mp h
  cases h
  have hlen := congrArg List.length (foldl_inv (fun st : Report × List Definition =>
    st.2.map Definition.form) (forms_checkDefinition available) (List.range root.length) ({}, root))
  simp only [List.length_map] at hlen
  exact ⟨by simp only [Report.append_errors]; omega, hlen,
    fun hdup => (views_checkerValidateNodesets hdup hn).trans (views_checkerValidateStrips hdup _)⟩

/-- `netlist_checker_intern` without error returns conformant lines only. -/
theorem netlistCheckerIntern_conformant {regOf : List Definition → List Definition}
    {root : List Definition} {r : Report × Option Nat × List Definition}
    (h : netlistCheckerIntern available regOf fuel root = .ok r) (h0 : r.1.errors = 0) :
    ∀ e ∈ r.2.2, Conformant available e := by
  obtain ⟨hle, hlen, hv⟩ := netlistCheckerIntern_lines h
  refine conformant_of_map (hv (V := Definition.entryForm) fun _ => rfl) fun e he => ?_
  obtain ⟨i, hi⟩ := List.mem_iff_getElem?.mp he
  exact linesChecked available root root.length (by omega) i
    (hlen ▸ (List.getElem?_eq_some_iff.mp hi).1) e hi

/-- After the first `k` templates of the body loop without error, every line of their bodies
has `P` in its body. -/
def BodiesHold (P : List Definition → Definition → Prop) (k : Nat)
    (st : Report × Option Nat × List Definition) : Prop :=
  st.1.errors = 0 → ∀ t < k, ∀ T ∈ st.2.2[t]?, ∀ e ∈ T.sub, P T.sub e

variable {P : List Definition → Definition → Prop}
  (hP : ∀ ⦃regOf : List Definition → List Definition⦄ ⦃root : List Definition⦄
    ⦃r : Report × Option Nat × List Definition⦄,
    netlistCheckerIntern available regOf fuel root = .ok r → r.1.errors = 0 →
      ∀ e ∈ r.2.2, P r.2.2 e)
include hP

theorem BodiesHold.step {k : Nat} {st st' : Report × Option Nat × List Definition}
    (h : BodiesHold P k st) (hs : checkBody available fuel st k = .ok st') :
    BodiesHold P (k + 1) st' := by
  unfold checkBody at hs
  intro h0 t ht T hT e he
  have hT' : st'.2.2[t]? = some T := hT
  cases hk : st.2.2[k]? with
  | none =>
    rw [hk] at hs
    cases hs
    have htk : t ≠ k := fun h => by rw [h, hk] at hT'; cases hT'
    exact h h0 t (by omega) T hT' e he
  | some T0 =>
    rw [hk] at hs
    obtain ⟨r, hr, hs⟩ := bind_eq_ok.mp hs
    cases hs
    simp only [Report.append_errors] at h0
    by_cases htk : t = k
    · subst htk
      rw [List.getElem?_modify_eq, hk] at hT'
      cases hT'
      exact hP hr (by omega) e he
    · rw [List.getElem?_modify_ne _ _ (Ne.symm htk)] at hT'
      exact h (by omega) t (by omega) T hT' e he

theorem bodiesHold (reg : List Definition) :
    ∀ (k : Nat) (st : Report × Option Nat × List Definition),
      (List.range k).foldlM (checkBody available fuel) ({}, none, reg) = .ok st →
        BodiesHold P k st
  | 0, _, h => by cases h; exact fun _ _ ht => absurd ht (Nat.not_lt_zero _)
  | k + 1, st, h => by
    rw [List.range_succ, List.foldlM_append] at h
    obtain ⟨s, hs, h⟩ := bind_eq_ok.mp h
    rw [List.foldlM_cons] at h
    obtain ⟨s', hs', h⟩ := bind_eq_ok.mp h
    cases h
    exact (bodiesHold reg k s hs).step hP hs'

/-- A property every run of `netlist_checker_intern` without error gives its lines in the list
it leaves holds of every body line the body loop leaves without error, in its body. -/
theorem checkBodies_forall {reg : List Definition} {r : Report × Option Nat × List Definition}
    (h : checkBodies available fuel reg = .ok r) (h0 : r.1.errors = 0) :
    ∀ T ∈ r.2.2, ∀ e ∈ T.sub, P T.sub e := by
  intro T hT
  obtain ⟨t, ht⟩ := List.mem_iff_getElem?.mp hT
  have hlen := congrArg List.length (skeletons_checkBodies h)
  simp only [skeletons, List.length_map] at hlen
  exact bodiesHold hP reg reg.length r h h0 t (hlen ▸ (List.getElem?_eq_some_iff.mp ht).1) T ht

/-- A property every run of `netlist_checker_intern` without error gives its lines in the list
it leaves, and that the action checks keep, holds when the checks of `netlist_checker` report no
error of every top-level line they leave, in that list, and of every body line, in its body. -/
theorem validated_forall {g g' : Globals} {r : Report}
    (hact : ∀ ⦃reg : List Definition⦄ ⦃cycles : Nat⦄ ⦃root : List Definition⦄
      ⦃r : Report × List Definition⦄, checkerValidateActions reg cycles fuel root = .ok r →
        (∀ e ∈ root, P root e) → ∀ e ∈ r.2, P r.2 e)
    (h : netlistCheckerValidate available fuel g = .ok (r, g')) (h0 : r.errors = 0) :
    (∀ e ∈ g'.definitionRoot, P g'.definitionRoot e) ∧
      ∀ T ∈ g'.subcircuitRoot, ∀ e ∈ T.sub, P T.sub e := by
  unfold netlistCheckerValidate at h
  obtain ⟨⟨r0, stored, root, reg⟩, hl, h⟩ := bind_eq_ok.mp h
  obtain ⟨actions, ha, h⟩ := bind_eq_ok.mp h
  cases h
  unfold checkLists at hl
  obtain ⟨top, htop, hl⟩ := bind_eq_ok.mp hl
  obtain ⟨defs, -, hl⟩ := bind_eq_ok.mp hl
  obtain ⟨bodies, hbodies, hl⟩ := bind_eq_ok.mp hl
  cases hl
  simp only [Report.append_errors] at h0
  exact ⟨hact ha (hP htop (by omega)), checkBodies_forall hP hbodies (by omega)⟩

omit hP

/-- The checks of `netlist_checker` without error hand the expansion conformant lines only. -/
theorem netlistCheckerValidate_conformant {g g' : Globals} {r : Report}
    (h : netlistCheckerValidate available fuel g = .ok (r, g')) (h0 : r.errors = 0) :
    (∀ e ∈ g'.definitionRoot, Conformant available e) ∧
      ∀ T ∈ g'.subcircuitRoot, ∀ e ∈ T.sub, Conformant available e :=
  validated_forall (P := fun _ e => Conformant available e)
    (fun _ _ _ => netlistCheckerIntern_conformant)
    (fun _ _ _ _ ha => conformant_of_map (views_checkerValidateActions (V := Definition.entryForm)
      (fun d ps h => by simp only [Definition.entryForm, Definition.form, h]) ha)) h h0

end Pass

/-! ### The expansion -/

/-- The entry forms of the lines of a template's body. -/
def Definition.bodyForms (T : Definition) : List (Form × Option Define) :=
  T.sub.map Definition.entryForm

/-- A line the expansion may produce from registry `reg`: not a `Sub` line, with the entry form
of a line of one of the bodies. -/
def BodyCopy (reg : List Definition) (c : Definition) : Prop :=
  c.type ≠ "Sub" ∧ c.entryForm ∈ reg.flatMap Definition.bodyForms

theorem xlatNodes_length :
    ∀ {nodes : List Node} {i : Nat} {ts ns xs : List Node}, xlatNodes nodes i ts ns = .ok xs →
      xs.length = nodes.length
  | _, _, [], _, _, h => by cases h; rfl
  | _, _, _ :: _, [], _, h => by cases h
  | nodes, i, t :: ts, n :: ns, xs, h => by
    rw [xlatNodes] at h
    rw [xlatNodes_length h, List.length_map]

/-! The expansion moves a line only by copying it out of a body, which changes its name and
nodes and nothing else. So a view of a line that reads only its type, action flag, node count,
properties and annotation is, for every line the expansion adds, the view of a body line. -/

section Copies

variable {β : Type} {V : Definition → β}
  (hV : ∀ d e : Definition, e.type = d.type → e.action = d.action →
    e.nodes.length = d.nodes.length → e.pairs = d.pairs → e.define = d.define → V e = V d)
include hV

/-- A line with the view of a line of one of the bodies of `reg`, and not a `Sub` line. -/
def BodyView (V : Definition → β) (reg : List Definition) (c : Definition) : Prop :=
  c.type ≠ "Sub" ∧ V c ∈ reg.flatMap fun T => T.sub.map V

omit hV in
theorem BodyView.transfer {reg reg' : List Definition} {c : Definition}
    (h : reg'.map (fun T => T.sub.map V) = reg.map fun T => T.sub.map V)
    (hc : BodyView V reg' c) : BodyView V reg c := by
  refine ⟨hc.1, ?_⟩
  rw [List.flatMap_def, ← h]
  exact hc.2

theorem views_setBodyNodes {reg : List Definition} {t k : Nat} {f : List Node → List Node}
    {T d : Definition} (hT : reg[t]? = some T) (hd : T.sub[k]? = some d)
    (hf : (f d.nodes).length = d.nodes.length) :
    (setBodyNodes reg t k f).map (fun T => T.sub.map V) = reg.map fun T => T.sub.map V := by
  unfold setBodyNodes
  refine map_modify_at ?_ hT
  exact map_modify_at (g := V) (hV _ _ rfl rfl hf rfl rfl) hd

theorem views_setBodyNodes_of_length {f : List Node → List Node}
    (hf : ∀ ns, (f ns).length = ns.length) (reg : List Definition) (t k : Nat) :
    (setBodyNodes reg t k f).map (fun T => T.sub.map V) = reg.map fun T => T.sub.map V := by
  unfold setBodyNodes
  refine map_modify_of (fun T => ?_) t reg
  exact map_modify_of (g := V) (fun d => hV d { d with nodes := f d.nodes } rfl rfl (hf _) rfl rfl)
    k T.sub

theorem checkerCopyCircuitNodes_view {type inst sub c c' : Definition}
    {ins : Option String} (h : checkerCopyCircuitNodes type inst sub c ins = .ok c') :
    c'.type = c.type ∧ V c' = V c := by
  unfold checkerCopyCircuitNodes at h
  obtain ⟨ns, hns, h⟩ := bind_eq_ok.mp h
  cases h
  exact ⟨rfl, hV _ _ rfl rfl (mapM_length hns) rfl rfl⟩

omit hV in
/-- What the copying keeps and makes against the registry `R` it started from: the bodies keep
their views, and every copy so far has the view of a body line of `R`. -/
def CopyKeeps (V : Definition → β) (R : List Definition) (st : CopyResult) : Prop :=
  st.1.map (fun T => T.sub.map V) = R.map (fun T => T.sub.map V) ∧ ∀ c ∈ st.2.1, BodyView V R c

theorem copyLine_keeps {R : List Definition}
    {recurse : List Definition → Nat → Definition → Option (List String) → Except Fault CopyResult}
    (hrec : ∀ reg t' y ins r, recurse reg t' y ins = .ok r → CopyKeeps V reg r)
    {t : Nat} {x : Definition} {k : Nat} {st st' : CopyResult} (hst : CopyKeeps V R st)
    (h : copyLine recurse t x k st = .ok st') : CopyKeeps V R st' := by
  obtain ⟨reg, root, ins⟩ := st
  obtain ⟨hreg, hroot⟩ := hst
  simp only [copyLine] at h
  cases hT : reg[t]? with
  | none => simp [hT] at h
  | some T =>
    simp only [hT] at h
    cases hd : T.sub[k]? with
    | none => simp only [hd] at h; cases h; exact ⟨hreg, hroot⟩
    | some d =>
      simp only [hd] at h
      obtain ⟨xs, hx, h⟩ := bind_eq_ok.mp h
      have hxl : xs.length = d.nodes.length := xlatNodes_length hx
      have hreg1 := (views_setBodyNodes hV (f := fun _ => xs) hT hd hxl).trans hreg
      have hclean := views_setBodyNodes_of_length hV
        (f := checkerCleanupXlatNodes) (fun _ => List.length_map _ _)
      split at h
      · split at h
        · simp at h
        · obtain ⟨r, hr, h⟩ := bind_eq_ok.mp h
          obtain ⟨hr1, hr2⟩ := hrec _ _ _ _ _ hr
          split at h
          · split at h
            · obtain ⟨copy, hcopy, h⟩ := bind_eq_ok.mp h
              simp only [ok_bind, except_pure] at h
              cases h
              refine ⟨(hclean _ _ _).trans (hr1.trans hreg1), fun c hc => ?_⟩
              rcases List.mem_append.mp hc with hc | hc
              · obtain ⟨c0, hc0, hcc⟩ := mem_of_mapM hcopy c hc
                obtain ⟨hty, hview⟩ := checkerCopyCircuitNodes_view hV hcc
                obtain ⟨hs, hm⟩ := (hr2 c0 hc0).transfer hreg1
                exact ⟨hty ▸ hs, hview ▸ hm⟩
              · exact hroot c hc
            · simp at h
          · simp at h
      · rename_i hs
        simp only [ok_bind, except_pure] at h
        cases h
        refine ⟨(hclean _ _ _).trans hreg1, fun c hc => ?_⟩
        rcases List.mem_cons.mp hc with rfl | hc
        · have hmem : V d ∈ R.flatMap fun T => T.sub.map V := by
            rw [List.flatMap_def, ← hreg, ← List.flatMap_def]
            exact List.mem_flatMap.mpr ⟨T, List.getElem?_mem hT,
              List.mem_map_of_mem _ (List.getElem?_mem hd)⟩
          refine ⟨hs, ?_⟩
          convert hmem using 1
          exact hV d _ rfl rfl (by simp [checkerCopySubcircuit, checkerCopySubcircuitNodes, hxl])
            rfl rfl
        · exact hroot c hc

/-- A run of `checker_copy_subcircuits` keeps the views of the registry's bodies and returns
copies with the view of a body line. -/
theorem checkerCopySubcircuits_keeps :
    ∀ (fuel : Nat) (reg : List Definition) (t : Nat) (x : Definition)
      (ins : Option (List String)) (r : CopyResult),
      checkerCopySubcircuits fuel reg t x ins = .ok r → CopyKeeps V reg r
  | 0, _, _, _, _, _, h => by cases h
  | fuel + 1, reg, t, x, ins, r, h => by
    simp only [checkerCopySubcircuits] at h
    split at h
    · cases h
    · exact foldlM_induct (CopyKeeps V reg)
        (fun _ _ _ hst hs => copyLine_keeps hV (checkerCopySubcircuits_keeps fuel) hst hs)
        ⟨rfl, fun _ h => absurd h (List.not_mem_nil _)⟩ h

theorem expandLoop_keeps {fuel : Nat} {R : List Definition} {P : Definition → Prop}
    (hP : ∀ c, BodyView V R c → P c) :
    ∀ (steps : Nat) (reg prev next : List Definition) (r : List Definition × List Definition),
      reg.map (fun T => T.sub.map V) = R.map (fun T => T.sub.map V) →
      (∀ d ∈ prev, d.type ≠ "Sub" ∧ P d) → (∀ d ∈ next, d.type ≠ "Sub" → P d) →
      expandLoop fuel steps reg prev next = .ok r →
        r.1.map (fun T => T.sub.map V) = R.map (fun T => T.sub.map V) ∧
          ∀ d ∈ r.2, d.type ≠ "Sub" ∧ P d
  | 0, _, _, _, _, _, _, _, h => by cases h
  | _ + 1, reg, prev, [], r, hreg, hprev, _, h => by
    cases h
    exact ⟨hreg, fun d hd => hprev d (List.mem_reverse.mp hd)⟩
  | steps + 1, reg, prev, d :: next, r, hreg, hprev, hnext, h => by
    have hnext' : ∀ e ∈ next, e.type ≠ "Sub" → P e := fun e he => hnext e (List.mem_cons_of_mem d he)
    simp only [expandLoop] at h
    split at h
    · split at h
      · cases h
      · obtain ⟨⟨reg', C, ins⟩, hc, h⟩ := bind_eq_ok.mp h
        obtain ⟨hreg', hC⟩ := checkerCopySubcircuits_keeps hV fuel reg _ d none _ hc
        have hR := hreg'.trans hreg
        split at h
        · exact expandLoop_keeps hP steps _ _ _ r hR hprev hnext' h
        · refine expandLoop_keeps hP steps _ _ _ r hR (fun c hc => ?_) (fun e he hs => ?_) h
          · obtain ⟨hs, hm⟩ := hC c (List.mem_reverse.mp hc)
            exact ⟨hs, hP c (BodyView.transfer hreg ⟨hs, hm⟩)⟩
          · rcases List.mem_append.mp he with he | he
            · exact (hprev e (List.mem_reverse.mp he)).2
            · exact hnext' e he hs
    · rename_i hs
      refine expandLoop_keeps hP steps _ _ _ r hreg (fun c hc => ?_) hnext' h
      rcases List.mem_cons.mp hc with rfl | hc
      · exact ⟨hs, hnext c (List.mem_cons_self c next) hs⟩
      · exact hprev c hc

end Copies

theorem entryForm_copy (d e : Definition) (_ : e.type = d.type) (_ : e.action = d.action)
    (hn : e.nodes.length = d.nodes.length) (hp : e.pairs = d.pairs) (hd : e.define = d.define) :
    e.entryForm = d.entryForm := by
  simp only [Definition.entryForm, Definition.form, *]

/-- Every line of the netlist `netlist_checker` accepts and flattens conforms to the catalog:
no `Sub` line is left, the type of each line has an entry for its action flag, the line is
annotated with that entry, the entry admits its node count, each required property occurs once
and each optional one at most once, every property is one of the entry's, a numeric property
holds a single value unless lists are allowed, and the others hold an identifier. -/
theorem accepted_netlist_conforms {available : List Define} {fuel : Nat} {g g' : Globals}
    {log : List Diagnostic} (h : netlistChecker available fuel g = .ok (0, g', log)) :
    ∀ d ∈ g'.definitionRoot, d.type ≠ "Sub" ∧ Conformant available d := by
  unfold netlistChecker at h
  obtain ⟨⟨r, g1⟩, hv, h⟩ := bind_eq_ok.mp h
  dsimp only at h
  split at h
  · rename_i h0
    obtain ⟨⟨reg, X⟩, hx, h⟩ := bind_eq_ok.mp h
    cases h
    obtain ⟨htop, hbod⟩ := netlistCheckerValidate_conformant hv h0
    intro d hd
    obtain ⟨-, hX⟩ := expandLoop_keeps entryForm_copy
      (P := fun d => d ∈ g1.definitionRoot ∨ BodyCopy g1.subcircuitRoot d)
      (fun _ hc => .inr hc) fuel _ [] _ _ rfl (fun _ h => absurd h (List.not_mem_nil _))
      (fun _ hd _ => .inl hd) hx
    obtain ⟨hs, hd | ⟨-, hm⟩⟩ := hX d hd
    · exact ⟨hs, htop d hd⟩
    · obtain ⟨T, hT, he⟩ := List.mem_flatMap.mp hm
      obtain ⟨e, he, hee⟩ := List.mem_map.mp he
      exact ⟨hs, (hbod T hT e he).of_entryForm hee.symm⟩
  · cases h

theorem nested_netlist_conforms :
    ∃ g' log, netlistChecker sampleCatalog 6 { definitionRoot := nestedNetlist } =
        .ok (0, g', log) ∧
      ∀ d ∈ g'.definitionRoot, d.type ≠ "Sub" ∧ Conformant sampleCatalog d := by
  obtain ⟨g', log, h⟩ : ∃ g' log,
      netlistChecker sampleCatalog 6 { definitionRoot := nestedNetlist } = .ok (0, g', log) :=
    ⟨_, _, rfl⟩
  exact ⟨g', log, h, accepted_netlist_conforms h⟩

/-- `checker_expand_subcircuits` returns no `Sub` line: each line it returns is a line of the
list it was given, or has the type, action flag, node count, property forms and catalog
annotation of a line of a template body; the bodies of the registry keep theirs. -/
theorem expansion_line_origins {fuel : Nat} {reg root reg' X : List Definition}
    (h : checkerExpandSubcircuits fuel reg root = .ok (reg', X)) :
    reg'.map Definition.bodyForms = reg.map Definition.bodyForms ∧
      ∀ d ∈ X, d.type ≠ "Sub" ∧ (d ∈ root ∨ BodyCopy reg d) :=
  expandLoop_keeps entryForm_copy (P := fun d => d ∈ root ∨ BodyCopy reg d) (fun _ hc => .inr hc)
    fuel reg [] root _ rfl (fun _ h => absurd h (List.not_mem_nil _)) (fun _ hd _ => .inl hd) h

theorem nested_expansion_origins :
    ∃ reg' X, checkerExpandSubcircuits 6 (checkerBuildSubcircuits nestedNetlist []).2
        (checkerBuildSubcircuits nestedNetlist []).1 = .ok (reg', X) ∧
      reg'.map Definition.bodyForms =
        (checkerBuildSubcircuits nestedNetlist []).2.map Definition.bodyForms ∧
      ∀ d ∈ X, d.type ≠ "Sub" ∧ (d ∈ (checkerBuildSubcircuits nestedNetlist []).1 ∨
        BodyCopy (checkerBuildSubcircuits nestedNetlist []).2 d) := by
  obtain ⟨reg', X, h⟩ : ∃ reg' X, checkerExpandSubcircuits 6
      (checkerBuildSubcircuits nestedNetlist []).2 (checkerBuildSubcircuits nestedNetlist []).1 =
        .ok (reg', X) := ⟨_, _, rfl⟩
  exact ⟨reg', X, h, expansion_line_origins h⟩

/-- The loop walks a list without `Sub` lines to its end and returns it as it is, given a step for
each line. -/
theorem expandLoop_noSub {fuel : Nat} {reg : List Definition} :
    ∀ (steps : Nat) (prev next : List Definition), (∀ d ∈ next, d.type ≠ "Sub") →
      next.length < steps → expandLoop fuel steps reg prev next = .ok (reg, prev.reverse ++ next)
  | 0, _, _, _, hs => absurd hs (Nat.not_lt_zero _)
  | _ + 1, _, [], _, _ => by simp [expandLoop]
  | steps + 1, prev, d :: next, hn, hs => by
    simp only [expandLoop, hn d (List.mem_cons_self d next), if_false]
    rw [expandLoop_noSub steps (d :: prev) next (fun e he => hn e (List.mem_cons_of_mem d he))
      (by simp only [List.length_cons] at hs; omega)]
    simp

/-- `checker_expand_subcircuits` leaves no `Sub` line, so it is idempotent: expanding the list it
returns once more, with a step for each line, returns that list and the registry unchanged. -/
theorem expansion_idempotent {fuel n : Nat} {reg root reg' X : List Definition}
    (h : checkerExpandSubcircuits fuel reg root = .ok (reg', X)) (hn : X.length < n) :
    (∀ d ∈ X, d.type ≠ "Sub") ∧ checkerExpandSubcircuits n reg' X = .ok (reg', X) := by
  have hX := (expandLoop_keeps entryForm_copy (P := fun _ => True) (fun _ _ => trivial) fuel reg
    [] root _ rfl (fun _ h => absurd h (List.not_mem_nil _)) (fun _ _ _ => trivial) h).2
  have hsub : ∀ d ∈ X, d.type ≠ "Sub" := fun d hd => (hX d hd).1
  exact ⟨hsub, expandLoop_noSub n [] X hsub hn⟩

theorem nested_expansion_idempotent :
    ∃ reg' X, checkerExpandSubcircuits 6 (checkerBuildSubcircuits nestedNetlist []).2
        (checkerBuildSubcircuits nestedNetlist []).1 = .ok (reg', X) ∧ X.length < 6 ∧
      (∀ d ∈ X, d.type ≠ "Sub") ∧ checkerExpandSubcircuits 6 reg' X = .ok (reg', X) := by
  obtain ⟨reg', X, h, hn⟩ : ∃ reg' X, checkerExpandSubcircuits 6
      (checkerBuildSubcircuits nestedNetlist []).2 (checkerBuildSubcircuits nestedNetlist []).1 =
        .ok (reg', X) ∧ X.length < 6 := ⟨_, _, rfl, by decide⟩
  exact ⟨reg', X, h, hn, expansion_idempotent h hn⟩

end QucsNetlist
