import QucsNetlist.Scales

/-! # Identifiers of accepted lists resolve and are tagged (`check_netlist.cpp:120-326`)

`checker_resolve_variable` looks the identifier of a property's head value up in six places:
the parameters and the simulations of the parameter sweeps, the substrate of a microstrip line,
the types of the subcircuit instances, the allowed special values, and the files of the
S-parameter file components. It counts an error when none of them finds it. Every search reads
the types of the lines and the keys and identifiers of their properties, and no check rewrites
those. So when the checks of `netlist_checker` report no error, the identifier of every property
of every line resolves in the list the line stands in, at the top level and in every template
body, as the checks leave them. The values whose identifier names a sweep parameter carry the
variable tag the resolution writes.
-/

namespace QucsNetlist

/-! ### The searches read shapes only -/

theorem variableOf_isSome (type key ident : String) (d : Definition) :
    (variableOf type key ident d).isSome ↔
      d.type = type ∧ (key, some ident) ∈ d.pairs.map Pair.ref := by
  unfold variableOf
  split <;> simp [*, Pair.ref]

theorem checkerFindVariable_isSome (root : List Definition) (type key ident : String) :
    (checkerFindVariable root type key ident).isSome ↔
      ∃ d ∈ root, d.type = type ∧ (key, some ident) ∈ d.pairs.map Pair.ref := by
  simp only [checkerFindVariable, List.findSome?_isSome_iff, variableOf_isSome]

theorem checkerFindSubstrate_of_shape {d d' : Definition} (h : d'.shape = d.shape)
    (ident : String) : checkerFindSubstrate d' ident = checkerFindSubstrate d ident := by
  simp only [checkerFindSubstrate, (shape_eq_iff.mp h).1, checkerFindReference_of_shape h]

section Shapes

variable {l l' : List Definition} (hl : l'.map Definition.shape = l.map Definition.shape)
include hl

theorem exists_ref_of_shapes {type : String} {r : String × Option String}
    (h : ∃ d ∈ l', d.type = type ∧ r ∈ d.pairs.map Pair.ref) :
    ∃ d ∈ l, d.type = type ∧ r ∈ d.pairs.map Pair.ref := by
  obtain ⟨d', hd', ht, hr⟩ := h
  obtain ⟨d, hd, hs⟩ := mem_of_shapes hl hd'
  obtain ⟨hty, -, -, -, hrefs⟩ := shape_eq_iff.mp hs
  exact ⟨d, hd, hty.trans ht, hrefs ▸ hr⟩

theorem checkerFindVariable_isSome_of_shapes (type key ident : String) :
    (checkerFindVariable l' type key ident).isSome =
      (checkerFindVariable l type key ident).isSome := by
  rw [Bool.eq_iff_iff, checkerFindVariable_isSome, checkerFindVariable_isSome]
  exact ⟨exists_ref_of_shapes hl, exists_ref_of_shapes hl.symm⟩

theorem checkerValidateSpecial_eq_zero_of_shapes (d d' : Definition) (ident : String) :
    (checkerValidateSpecial l' d' ident).1 = 0 ↔ (checkerValidateSpecial l d ident).1 = 0 := by
  rw [← not_iff_not, ← Ne, ← Ne, checkerValidateSpecial_found, checkerValidateSpecial_found]
  simp only [checkerFindVariable_isSome_of_shapes hl]

end Shapes

/-- `ident`, read in a property of line `d` of `root`, is found by one of the six searches of
`checker_resolve_variable`: a parameter or a simulation of a parameter sweep, the substrate of
the microstrip line `d`, the type of a subcircuit instance, an allowed special value, or the file
of an S-parameter file component. -/
def Resolves (root : List Definition) (d : Definition) (ident : String) : Prop :=
  (checkerFindVariable root "SW" "Param" ident).isSome ∨
    (checkerFindVariable root "SW" "Sim" ident).isSome ∨ (checkerFindSubstrate d ident).isSome ∨
    (checkerFindVariable root "Sub" "Type" ident).isSome ∨
    (checkerValidateSpecial root d ident).1 ≠ 0 ∨
    (checkerFindVariable root "SPfile" "File" ident).isSome

instance (root : List Definition) (d : Definition) (ident : String) :
    Decidable (Resolves root d ident) :=
  inferInstanceAs (Decidable (_ ∨ _))

theorem Resolves.of_shapes {l l' : List Definition} {d d' : Definition} {ident : String}
    (hl : l'.map Definition.shape = l.map Definition.shape) (hd : d'.shape = d.shape)
    (h : Resolves l d ident) : Resolves l' d' ident := by
  simpa only [Resolves, checkerFindVariable_isSome_of_shapes hl, checkerFindSubstrate_of_shape hd,
    Ne, checkerValidateSpecial_eq_zero_of_shapes hl d d'] using h

/-! ### One resolution -/

theorem shape_of_forms {d : Definition} {ps : List Pair}
    (h : ps.map Pair.form = d.pairs.map Pair.form) : ({ d with pairs := ps }).shape = d.shape := by
  simp only [Definition.shape, refs_of_forms h]

/-- A search count of `checker_resolve_variable` that is not zero, made on a list of the shapes of
`root` after the sweep tag and the substrate mark, found the identifier in `root`. -/
theorem resolves_of_found {root root' : List Definition} {d : Definition} {ident : String}
    (hl : root'.map Definition.shape = root.map Definition.shape)
    (h : [(checkerFindVariable root "SW" "Param" ident).isSome,
      (checkerFindVariable root' "SW" "Sim" ident).isSome, (checkerFindSubstrate d ident).isSome,
      (checkerFindVariable root' "Sub" "Type" ident).isSome,
      (checkerValidateSpecial root' d ident).1 != 0,
      (checkerFindVariable root' "SPfile" "File" ident).isSome].count true ≠ 0) :
    Resolves root d ident := by
  simp only [ne_eq, List.count_eq_zero, not_not, List.mem_cons, List.mem_singleton,
    List.not_mem_nil, or_false, eq_comm (a := true), bne_iff_ne, Ne,
    checkerFindVariable_isSome_of_shapes hl,
    checkerValidateSpecial_eq_zero_of_shapes hl d d] at h
  exact h

/-- A resolution that succeeds found the identifier it read. -/
theorem resolves_of_checkerResolveVariable {root : List Definition} {i j : Nat} {d : Definition}
    {p : Pair} {ident : String} (hd : root[i]? = some d) (hp : d.pairs[j]? = some p)
    (hx : p.value.ident = some ident) (h : (checkerResolveVariable root i j).1 = true) :
    Resolves root d ident := by
  have hl := views_checkerResolveVariable (V := Definition.shape) (fun _ _ h => shape_of_forms h)
    root i j
  have hb : (d.pairs[j]?).bind (·.value.ident) = some ident := by simp [hp, hx]
  unfold checkerResolveVariable at h hl
  simp only [hd, hb, apply_ite Prod.fst, apply_ite Prod.snd, ite_self] at h hl
  exact resolves_of_found hl (by simpa using h)

/-! ### The line loop -/

theorem shapes_checkDefinition (available : List Define) (st : Report × List Definition)
    (k : Nat) :
    (checkDefinition available st k).2.map Definition.shape = st.2.map Definition.shape :=
  views_checkDefinition (V := Definition.shape) (fun _ => rfl) (fun _ _ h => shape_of_forms h)
    (fun _ _ => rfl) available st k

/-- Every identifier of a property of line `d` resolves in `root`. -/
def LineResolves (root : List Definition) (d : Definition) : Prop :=
  ∀ p ∈ d.pairs, ∀ ident, p.value.ident = some ident → Resolves root d ident

theorem LineResolves.of_shapes {l l' : List Definition} {d d' : Definition}
    (hl : l'.map Definition.shape = l.map Definition.shape) (hd : d'.shape = d.shape)
    (h : LineResolves l d) : LineResolves l' d' := by
  intro p' hp' ident hx
  have hr : p'.ref ∈ d.pairs.map Pair.ref :=
    (shape_eq_iff.mp hd).2.2.2.2 ▸ List.mem_map_of_mem _ hp'
  obtain ⟨p, hp, hpr⟩ := List.mem_map.mp hr
  exact (h p hp ident (by rw [← hx]; exact congrArg Prod.snd hpr)).of_shapes hl hd

/-- A pair loop over line `i` of a list of the shapes of `L` that adds no error resolved the
identifier of each pair it read. -/
theorem pairLoop_resolves (a : Define) {L : List Definition} {i : Nat} {d : Definition}
    (hd : L[i]? = some d) : ∀ (k : Nat) (st : Report × List Definition),
      st.2.map Definition.shape = L.map Definition.shape →
      ((List.range k).foldl (fun st j => checkPair a i j st) st).1.errors ≤ st.1.errors →
      ∀ j < k, ∀ p ∈ d.pairs[j]?, ∀ ident, p.value.ident = some ident → Resolves L d ident
  | 0, _, _, _, _, h => absurd h (Nat.not_lt_zero _)
  | k + 1, st, hs, hle, j, hj => by
    rw [List.range_succ, List.foldl_append, List.foldl_cons, List.foldl_nil] at hle
    have h1 := pairLoop_errors_le (a := a) i (List.range k) st
    have h2 := checkPair_errors (a := a) i k
      ((List.range k).foldl (fun st j => checkPair a i j st) st)
    rcases Nat.lt_succ_iff_lt_or_eq.mp hj with hj | rfl
    · exact pairLoop_resolves a hd k st hs (by omega) j hj
    intro p hp ident hx
    -- the line and the pair the step reads, of the shapes of those of `L`
    have hsL := (foldl_inv (fun s : Report × List Definition => s.2.map Definition.shape)
      (fun s j => views_checkPair (V := Definition.shape) (fun _ _ h => shape_of_forms h) a i j s)
      (List.range j) st).trans hs
    set s := (List.range j).foldl (fun st j => checkPair a i j st) st
    obtain ⟨e, he, hes⟩ := exists_view_of_map_eq hsL hd
    obtain ⟨q, hq, hqp⟩ := exists_view_of_map_eq (shape_eq_iff.mp hes).2.2.2.2 hp
    obtain ⟨-, -, hres⟩ := h2.2 e q he hq (by omega)
    have hqx : q.value.ident = some ident := by rw [← hx]; exact congrArg Prod.snd hqp
    have hset := views_setValueAt (V := Definition.shape) (fun _ _ h => shape_of_forms h)
      checkerEvaluateScale_ident s.2 i j
    have he' : (setValueAt s.2 i j checkerEvaluateScale)[i]? =
        some { e with pairs :=
          e.pairs.modify (fun p => { p with value := checkerEvaluateScale p.value }) j } := by
      simp [setValueAt, List.getElem?_modify_eq, he]
    refine (resolves_of_checkerResolveVariable he'
      (p := { q with value := checkerEvaluateScale q.value })
      (by simp [List.getElem?_modify_eq, hq]) (by simpa using hqx) hres).of_shapes
      (hset.trans hsL).symm (hes.symm.trans ?_)
    exact (shape_of_forms (map_modify_of (fun _ => by simp [Pair.form]) j e.pairs)).symm

/-- The catalog checks of a line that count no error resolved every identifier of the line. -/
theorem checkLine_resolves (available : List Define) {root : List Definition} {i : Nat}
    {d : Definition} (hd : root[i]? = some d) (h0 : (checkLine available root i d).1.errors = 0) :
    LineResolves root d := by
  cases ha : checkerFindDefinition available d.type d.action with
  | none => simp only [checkLine, ha] at h0; exact absurd h0 Nat.one_ne_zero
  | some a =>
    unfold checkLine at h0
    rw [ha] at h0
    dsimp only at h0
    intro p hp ident hx
    obtain ⟨j, hj⟩ := List.mem_iff_getElem?.mp hp
    exact pairLoop_resolves a hd d.pairs.length
      (checkNodes a d (checkerCountNodes d) ++ checkOccurrences a d, root.modify (annotate a) i)
      (map_modify_of (f := annotate a) (g := Definition.shape) (fun _ => rfl) i root) (by omega) j
      (List.getElem?_eq_some_iff.mp hj).1 p hj ident hx

theorem checkDefinition_resolves (available : List Define) (st : Report × List Definition)
    (k : Nat) (h0 : (checkDefinition available st k).1.errors = 0) :
    ∀ e ∈ (checkDefinition available st k).2[k]?, LineResolves (checkDefinition available st k).2 e := by
  cases hk : st.2[k]? with
  | none => simp [checkDefinition_of_none hk, hk]
  | some d =>
    have hr := checkLine_resolves available hk ((checkDefinition_errors available st k).2 d hk h0)
    intro e he
    have hl := shapes_checkDefinition available st k
    exact hr.of_shapes hl (view_eq_of_map_eq hl hk he)

/-- After `k` lines of the loop without error, each of the first `k` lines has every identifier
resolved in the list. -/
def LinesResolve (k : Nat) (st : Report × List Definition) : Prop :=
  st.1.errors = 0 → ∀ i < k, ∀ e ∈ st.2[i]?, LineResolves st.2 e

theorem LinesResolve.step {available : List Define} {k : Nat} {st : Report × List Definition}
    (h : LinesResolve k st) : LinesResolve (k + 1) (checkDefinition available st k) := by
  intro h0 i hi e he
  rcases Nat.lt_succ_iff_lt_or_eq.mp hi with hik | rfl
  · have hl := shapes_checkDefinition available st k
    obtain ⟨e0, he0, hs⟩ := exists_view_of_map_eq hl.symm he
    have hle := checkDefinition_errors_le available st k
    exact (h (by omega) i hik e0 he0).of_shapes hl hs.symm
  · exact checkDefinition_resolves available st i h0 e he

theorem linesResolve (available : List Define) (root : List Definition) :
    ∀ k, LinesResolve k ((List.range k).foldl (checkDefinition available) ({}, root))
  | 0 => fun _ _ hi => absurd hi (Nat.not_lt_zero _)
  | k + 1 => by
    rw [List.range_succ, List.foldl_append]
    exact (linesResolve available root k).step

/-! ### The passes -/

theorem forall_lineResolves_of_shapes {l l' : List Definition}
    (hl : l'.map Definition.shape = l.map Definition.shape) (h : ∀ e ∈ l, LineResolves l e) :
    ∀ e ∈ l', LineResolves l' e := fun _ he =>
  let ⟨e0, he0, hs⟩ := mem_of_shapes hl he
  (h e0 he0).of_shapes hl hs.symm

/-- `netlist_checker_intern` without error leaves every identifier of its list resolved in it. -/
theorem netlistCheckerIntern_resolves {available : List Define}
    {regOf : List Definition → List Definition} {fuel : Nat} {root : List Definition}
    {r : Report × Option Nat × List Definition}
    (h : netlistCheckerIntern available regOf fuel root = .ok r) (h0 : r.1.errors = 0) :
    ∀ e ∈ r.2.2, LineResolves r.2.2 e := by
  obtain ⟨hle, hlen, hv⟩ := netlistCheckerIntern_lines h
  refine forall_lineResolves_of_shapes (hv (V := Definition.shape) fun _ => rfl) fun e he => ?_
  obtain ⟨i, hi⟩ := List.mem_iff_getElem?.mp he
  exact linesResolve available root root.length (by omega) i
    (hlen ▸ (List.getElem?_eq_some_iff.mp hi).1) e hi

/-- The checks of `netlist_checker` that report no error leave every identifier a property of a
line holds resolved, by one of the six searches of `checker_resolve_variable`, in the list the
line stands in: the top-level list, or the body of its template. -/
theorem validated_identifiers_resolve {available : List Define} {fuel : Nat} {g g' : Globals}
    {r : Report} (h : netlistCheckerValidate available fuel g = .ok (r, g')) (h0 : r.errors = 0) :
    (∀ d ∈ g'.definitionRoot, ∀ p ∈ d.pairs, ∀ ident, p.value.ident = some ident →
        Resolves g'.definitionRoot d ident) ∧
      ∀ T ∈ g'.subcircuitRoot, ∀ d ∈ T.sub, ∀ p ∈ d.pairs, ∀ ident, p.value.ident = some ident →
        Resolves T.sub d ident :=
  validated_forall (P := LineResolves) (fun _ _ _ => netlistCheckerIntern_resolves)
    (fun _ _ _ _ ha => forall_lineResolves_of_shapes
      (shapes_of_skeletons (skeletons_checkerValidateActions ha))) h h0

theorem scaled_netlist_resolves :
    ∃ r g', netlistCheckerValidate sampleCatalog 4 { definitionRoot := scaledNetlist } =
        .ok (r, g') ∧ r.errors = 0 ∧
      (∀ d ∈ g'.definitionRoot, ∀ p ∈ d.pairs, ∀ ident, p.value.ident = some ident →
        Resolves g'.definitionRoot d ident) ∧
      ∀ T ∈ g'.subcircuitRoot, ∀ d ∈ T.sub, ∀ p ∈ d.pairs, ∀ ident, p.value.ident = some ident →
        Resolves T.sub d ident := by
  obtain ⟨r, g', h, h0⟩ : ∃ r g', netlistCheckerValidate sampleCatalog 4
      { definitionRoot := scaledNetlist } = .ok (r, g') ∧ r.errors = 0 := ⟨_, _, rfl, rfl⟩
  exact ⟨r, g', h, h0, validated_identifiers_resolve h h0⟩

/-! ### The sweep tags

`checker_resolve_variable` tags the value of a property whose identifier names a parameter of a
parameter sweep, and the sweep's own value, as a variable (`TAG_DOUBLE`). No later write takes
the tag off an identifier: the `Values` fold of `checker_validate_lists`, which tags its value as
a vector, reaches a numeric value only. -/

/-- Pair `j` of line `i` of `l`, when its identifier names a parameter of a parameter sweep of
`l`, is tagged as a variable, or is not there. -/
def TaggedAt (l : List Definition) (i j : Nat) : Prop :=
  ∀ d ∈ l[i]?, ∀ p ∈ d.pairs[j]?, ∀ ident, p.value.ident = some ident →
    (checkerFindVariable l "SW" "Param" ident).isSome → p.value.var = .double

theorem TaggedAt.kept {l l' : List Definition} {i j : Nat} (hk : ScalesKept l l')
    (hs : l'.map Definition.shape = l.map Definition.shape) (h : TaggedAt l i j) :
    TaggedAt l' i j := by
  intro d' hd' p' hp' ident hx hf
  obtain ⟨d, hd, hl⟩ := Pointwise.origin hk hd'
  obtain ⟨p, hp, hpk⟩ := Pointwise.origin hl hp'
  have hpx : p.value.ident = some ident := hpk.ident.symm.trans hx
  rw [checkerFindVariable_isSome_of_shapes hs] at hf
  exact hpk.tagged (by simp [hpx]) (h d hd p hp ident hpx hf)

/-- A resolution tags the value it resolves when a sweep has its identifier as parameter. -/
theorem taggedAt_checkerResolveVariable (root : List Definition) (i j : Nat) :
    TaggedAt (checkerResolveVariable root i j).2.1 i j := by
  have hs := views_checkerResolveVariable (V := Definition.shape) (fun _ _ h => shape_of_forms h)
    root i j
  intro d' hd' p' hp' ident hx hf
  rw [checkerFindVariable_isSome_of_shapes hs] at hf
  obtain ⟨d, hd, hl⟩ := Pointwise.origin (scalesKept_checkerResolveVariable root i j) hd'
  obtain ⟨p, hp, hpk⟩ := Pointwise.origin hl hp'
  have hb : (d.pairs[j]?).bind (·.value.ident) = some ident := by
    simp [hp, hpk.ident.symm.trans hx]
  unfold checkerResolveVariable at hd'
  simp only [hd, hb, hf, if_true, apply_ite Prod.fst, apply_ite Prod.snd, ite_self] at hd'
  -- the tag at `(i, j)`, then perhaps the substrate mark, which keeps it
  split at hd'
  · obtain ⟨_, _, hd1, hp1, rfl⟩ := setValueAt_at hd' hp'
    obtain ⟨_, _, -, -, rfl⟩ := setValueAt_at hd1 hp1
    rfl
  · obtain ⟨_, _, -, -, rfl⟩ := setValueAt_at hd' hp'
    rfl

theorem checkPair_tagged (a : Define) (i j : Nat) (st : Report × List Definition) :
    TaggedAt (checkPair a i j st).2 i j := by
  rcases checkPair_list a i j st with ⟨he, hno⟩ | ⟨-, -, -, -, he⟩ <;> rw [he]
  · exact fun d hd p hp => by simp [hno d hd] at hp
  · exact taggedAt_checkerResolveVariable _ i j

theorem pairLoop_tagged (a : Define) (i : Nat) : ∀ (k : Nat) (st : Report × List Definition),
    ∀ j < k, TaggedAt ((List.range k).foldl (fun st j => checkPair a i j st) st).2 i j
  | 0, _, _, h => absurd h (Nat.not_lt_zero _)
  | k + 1, st, j, hj => by
    rw [List.range_succ, List.foldl_append, List.foldl_cons, List.foldl_nil]
    rcases Nat.lt_succ_iff_lt_or_eq.mp hj with hj | rfl
    · exact (pairLoop_tagged a i k st j hj).kept (checkPair_scales a i k _).1
        (views_checkPair (V := Definition.shape) (fun _ _ h => shape_of_forms h) a i k _)
    · exact checkPair_tagged a i j _

/-- Every identifier of line `d` that names a parameter of a parameter sweep of `l` is tagged as a
variable. -/
def LineTagged (l : List Definition) (d : Definition) : Prop :=
  ∀ p ∈ d.pairs, ∀ ident, p.value.ident = some ident →
    (checkerFindVariable l "SW" "Param" ident).isSome → p.value.var = .double

theorem LineTagged.kept {l l' : List Definition} {d d' : Definition} (h : LineTagged l d)
    (hk : LineKept d d') (hs : l'.map Definition.shape = l.map Definition.shape) :
    LineTagged l' d' := by
  intro p' hp' ident hx hf
  obtain ⟨j, hj⟩ := List.mem_iff_getElem?.mp hp'
  obtain ⟨p, hp, hpk⟩ := Pointwise.origin hk hj
  have hpx : p.value.ident = some ident := hpk.ident.symm.trans hx
  rw [checkerFindVariable_isSome_of_shapes hs] at hf
  exact hpk.tagged (by simp [hpx]) (h p (List.getElem?_mem hp) ident hpx hf)

theorem lineTagged_of_taggedAt {l : List Definition} {i : Nat} {e : Definition}
    (he : l[i]? = some e) (h : ∀ j < e.pairs.length, TaggedAt l i j) : LineTagged l e := by
  intro p hp ident hx hf
  obtain ⟨j, hj⟩ := List.mem_iff_getElem?.mp hp
  exact h j (List.getElem?_eq_some_iff.mp hj).1 e he p hj ident hx hf

/-- The catalog checks of a line whose type has an entry tag every identifier of the line that
names a sweep parameter. -/
theorem checkLine_tagged (available : List Define) {root : List Definition} {i : Nat}
    {d : Definition} (hd : root[i]? = some d)
    (hf : (checkerFindDefinition available d.type d.action).isSome) :
    ∀ e ∈ (checkLine available root i d).2[i]?, LineTagged (checkLine available root i d).2 e := by
  intro e he
  have hlen := ((checkLine_scales available hd).1.2 i d e hd he).1
  obtain ⟨a, ha⟩ := Option.isSome_iff_exists.mp hf
  unfold checkLine at he ⊢
  rw [ha] at he ⊢
  exact lineTagged_of_taggedAt he fun j hj => pairLoop_tagged a i _ _ j (hlen ▸ hj)

theorem checkDefinition_tagged (available : List Define) (st : Report × List Definition)
    (k : Nat) : ∀ d, st.2[k]? = some d → (checkerFindDefinition available d.type d.action).isSome →
      ∀ e ∈ (checkDefinition available st k).2[k]?,
        LineTagged (checkDefinition available st k).2 e := by
  intro d hk hf e he
  unfold checkDefinition at he ⊢
  rw [hk] at he ⊢
  obtain ⟨e0, he0, hl⟩ := Pointwise.origin
    (scalesKept_countDefinitionFrom d.type d.instance 0 (checkLine available st.2 k d).2) he
  exact (checkLine_tagged available hk hf e0 he0).kept hl
    (views_countDefinitionFrom (V := Definition.shape) (fun _ => rfl) _ _ 0 _)

/-- After `k` lines of the loop, each of the first `k` lines whose type has an entry has its sweep
variables tagged. -/
def LinesTagged (available : List Define) (k : Nat) (st : Report × List Definition) : Prop :=
  ∀ i < k, ∀ e ∈ st.2[i]?, (checkerFindDefinition available e.type e.action).isSome →
    LineTagged st.2 e

theorem LinesTagged.step {available : List Define} {k : Nat} {st : Report × List Definition}
    (h : LinesTagged available k st) :
    LinesTagged available (k + 1) (checkDefinition available st k) := by
  intro i hi e he hfound
  obtain ⟨e0, he0, hl⟩ := Pointwise.origin (checkDefinition_scales available st k).1 he
  have hform := view_eq_of_map_eq (forms_checkDefinition available st k) he0 he
  have ht : e.type = e0.type := congrArg Form.type hform
  have hac : e.action = e0.action := congrArg Form.action hform
  have hf0 : (checkerFindDefinition available e0.type e0.action).isSome := by rwa [← ht, ← hac]
  rcases Nat.lt_succ_iff_lt_or_eq.mp hi with hik | rfl
  · exact (h i hik e0 he0 hf0).kept hl (shapes_checkDefinition available st k)
  · exact checkDefinition_tagged available st i e0 he0 hf0 e he

theorem linesTagged (available : List Define) (root : List Definition) :
    ∀ k, LinesTagged available k ((List.range k).foldl (checkDefinition available) ({}, root))
  | 0 => fun _ hi => absurd hi (Nat.not_lt_zero _)
  | k + 1 => by
    rw [List.range_succ, List.foldl_append]
    exact (linesTagged available root k).step

/-- `netlist_checker_intern` tags every identifier of a line whose type has an entry that names a
sweep parameter of the list it leaves. -/
theorem netlistCheckerIntern_tagged {available : List Define}
    {regOf : List Definition → List Definition} {fuel : Nat} {root : List Definition}
    {r : Report × Option Nat × List Definition}
    (h : netlistCheckerIntern available regOf fuel root = .ok r) :
    ∀ e ∈ r.2.2, (checkerFindDefinition available e.type e.action).isSome → LineTagged r.2.2 e := by
  obtain ⟨-, hlen, hviews⟩ := netlistCheckerIntern_lines h
  have hs := hviews (V := Definition.shape) fun _ => rfl
  intro e he hf
  obtain ⟨i, hi⟩ := List.mem_iff_getElem?.mp he
  obtain ⟨e0, he0, hev⟩ :=
    exists_view_of_map_eq (hviews (V := Definition.foldView) fun _ => rfl).symm hi
  simp only [Definition.foldView, Prod.mk.injEq] at hev
  refine (linesTagged available root root.length i (hlen ▸ (List.getElem?_eq_some_iff.mp he0).1)
    e0 he0 (by rwa [hev.1, hev.2.1])).kept (LineKept.of_pairs hev.2.2.symm) hs

/-- When the checks of `netlist_checker` report no error, every property whose identifier names a
parameter of a parameter sweep of its list is tagged as a variable, at the top level and in every
template body: the sweeps' own parameters among them. -/
theorem validated_sweep_variables_tagged {available : List Define} {fuel : Nat} {g g' : Globals}
    {r : Report} (h : netlistCheckerValidate available fuel g = .ok (r, g')) (h0 : r.errors = 0) :
    (∀ d ∈ g'.definitionRoot, ∀ p ∈ d.pairs, ∀ ident, p.value.ident = some ident →
        (checkerFindVariable g'.definitionRoot "SW" "Param" ident).isSome → p.value.var = .double) ∧
      ∀ T ∈ g'.subcircuitRoot, ∀ d ∈ T.sub, ∀ p ∈ d.pairs, ∀ ident, p.value.ident = some ident →
        (checkerFindVariable T.sub "SW" "Param" ident).isSome → p.value.var = .double := by
  obtain ⟨hctop, hcbod⟩ := netlistCheckerValidate_conformant h h0
  obtain ⟨htop, hbod⟩ := validated_forall
    (P := fun l e => (checkerFindDefinition available e.type e.action).isSome → LineTagged l e)
    (fun _ _ _ h _ => netlistCheckerIntern_tagged h)
    (fun _ _ _ _ ha hl _ he hf =>
      let ⟨d, hd, hk, ht, hac, _⟩ := checkerValidateActions_origin ha he
      (hl d hd (ht ▸ hac ▸ hf)).kept hk (shapes_of_skeletons (skeletons_checkerValidateActions ha)))
    h h0
  exact ⟨fun d hd => htop d hd (hctop d hd).found,
    fun T hT d hd => hbod T hT d hd (hcbod T hT d hd).found⟩

/-- A parameter sweep of the resistance `Rx` of `R1` around the operating point `DC1`. -/
def sweptNetlist : List Definition :=
  [{ type := "SW", «instance» := "SW1", action := true,
     pairs := [identPair "Sim" "DC1", identPair "Param" "Rx", identPair "Type" "lin",
       { key := "Start", value := { value := 1 } }, { key := "Stop", value := { value := 10 } },
       { key := "Points", value := { value := 10 } }], sub := [] },
   { type := "R", «instance» := "R1", nodes := [namedNode "a", namedNode "gnd"],
     pairs := [identPair "R" "Rx"], sub := [] },
   { type := "DC", «instance» := "DC1", action := true, sub := [] }]

theorem swept_netlist_tagged :
    ∃ r g', netlistCheckerValidate sampleCatalog 4 { definitionRoot := sweptNetlist } =
        .ok (r, g') ∧ r.errors = 0 ∧
      (∀ d ∈ g'.definitionRoot, ∀ p ∈ d.pairs, ∀ ident, p.value.ident = some ident →
        (checkerFindVariable g'.definitionRoot "SW" "Param" ident).isSome → p.value.var = .double) ∧
      ∀ T ∈ g'.subcircuitRoot, ∀ d ∈ T.sub, ∀ p ∈ d.pairs, ∀ ident, p.value.ident = some ident →
        (checkerFindVariable T.sub "SW" "Param" ident).isSome → p.value.var = .double := by
  obtain ⟨r, g', h, h0⟩ : ∃ r g', netlistCheckerValidate sampleCatalog 4
      { definitionRoot := sweptNetlist } = .ok (r, g') ∧ r.errors = 0 := ⟨_, _, rfl, rfl⟩
  exact ⟨r, g', h, h0, validated_sweep_variables_tagged h h0⟩

end QucsNetlist
