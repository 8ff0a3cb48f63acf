import QucsNetlist.Frame

/-! # What the range checks read of a list

`checker_value_in_prop_range` (`check_netlist.cpp:854-907`) checks the range of every value of a
property's chain, the head and the list tail alike, but the property loop of
`netlist_checker_intern` (`check_netlist.cpp:1490-1510`) folds the unit scale of the head only
before it (`checker_evaluate_scale` on `pair->value`); the tail of a sweep's `Values` is folded
later, by `checker_validate_lists`, which checks no range. An identifier in a tail is never
resolved, and its range is checked through the number the parser left beside it. So of a value
after the head the line checks read the number and nothing else: a rewrite of the tails that
keeps every number leaves the whole report of the loop as it is.
-/

namespace QucsNetlist

/-- Every value after the head of a property of the line rewritten by `f`. -/
def mapTails (f : Value → Value) (d : Definition) : Definition :=
  { d with pairs := d.pairs.map fun p => { p with rest := p.rest.map f } }

/-! ### One commutation lemma per read and write of the line checks -/

section Tails

variable {f : Value → Value}

theorem variableOf_mapTails (type key ident : String) (d : Definition) :
    variableOf type key ident (mapTails f d) = variableOf type key ident d := by
  simp [variableOf, mapTails, List.findSome?_map, Function.comp_def]

theorem checkerFindVariable_mapTails (root : List Definition) (type key ident : String) :
    checkerFindVariable (root.map (mapTails f)) type key ident =
      checkerFindVariable root type key ident := by
  simp only [checkerFindVariable, List.findSome?_map, Function.comp_def, variableOf_mapTails]

theorem checkerFindReference_mapTails (d : Definition) (key : String) :
    checkerFindReference (mapTails f d) key = checkerFindReference d key := by
  simp [checkerFindReference, mapTails, List.findSome?_map, Function.comp_def]

theorem checkerFindSubstrate_mapTails (d : Definition) (ident : String) :
    checkerFindSubstrate (mapTails f d) ident = checkerFindSubstrate d ident := by
  simp only [checkerFindSubstrate, checkerFindReference_mapTails]
  rfl

theorem checkerValidateSpecial_mapTails (root : List Definition) (d : Definition) (ident : String) :
    checkerValidateSpecial (root.map (mapTails f)) (mapTails f d) ident =
      checkerValidateSpecial root d ident := by
  simp only [checkerValidateSpecial, checkerFindVariable_mapTails]
  rfl

theorem setValueAt_mapTails (root : List Definition) (i j : Nat) (g : Value → Value) :
    setValueAt (root.map (mapTails f)) i j g = (setValueAt root i j g).map (mapTails f) := by
  refine (map_modify_comm (fun d => ?_) i root).symm
  simp only [mapTails]
  congr 1
  exact map_modify_comm (fun _ => by rfl) _ _

theorem modifyVariable_mapTails (root : List Definition) (type key ident : String)
    (g : Value → Value) :
    modifyVariable (root.map (mapTails f)) type key ident g =
      (modifyVariable root type key ident g).map (mapTails f) := by
  refine (map_modifyFirst_comm (fun d => by rw [variableOf_mapTails]) (fun d => ?_) root).symm
  simp only [mapTails]
  congr 1
  exact map_modifyFirst_comm (fun _ => by rfl) (fun _ => by rfl) _

theorem getElem?_mapTails (d : Definition) (j : Nat) :
    (mapTails f d).pairs[j]? = d.pairs[j]?.map fun p => { p with rest := p.rest.map f } := by
  simp [mapTails]

theorem checkerResolveVariable_mapTails (root : List Definition) (i j : Nat) :
    checkerResolveVariable (root.map (mapTails f)) i j =
      ((checkerResolveVariable root i j).1, (checkerResolveVariable root i j).2.1.map (mapTails f),
        (checkerResolveVariable root i j).2.2) := by
  unfold checkerResolveVariable
  rw [List.getElem?_map]
  cases root[i]? with
  | none => rfl
  | some d =>
    simp only [Option.map_some', getElem?_mapTails, Option.bind_map, Function.comp_def]
    cases (d.pairs[j]?.bind fun x => x.value.ident) with
    | none => rfl
    | some ident =>
      dsimp only
      simp only [checkerFindVariable_mapTails, checkerFindSubstrate_mapTails]
      by_cases hsw : (checkerFindVariable root "SW" "Param" ident).isSome <;>
        by_cases hsub : (checkerFindSubstrate d ident).isSome <;>
        simp only [hsw, hsub, if_true, if_false, Bool.false_eq_true, setValueAt_mapTails,
          modifyVariable_mapTails, checkerFindVariable_mapTails,
          checkerValidateSpecial_mapTails] <;>
        split <;> rfl

theorem checkerFindProperty_mapTails (key : String) (d : Definition) :
    checkerFindProperty key (mapTails f d).pairs = checkerFindProperty key d.pairs := by
  simp [checkerFindProperty, mapTails, List.countP_map, Function.comp_def]

theorem checkerValueInPropRange_mapTails (hf : ∀ v, (f v).value = v.value) (inst : String)
    (a : Define) (key : String) (value : Value) (rest : List Value) :
    checkerValueInPropRange inst a ⟨key, value, rest.map f⟩ =
      checkerValueInPropRange inst a ⟨key, value, rest⟩ := by
  funext prop
  have he : (rest.map f).isEmpty = rest.isEmpty := by cases rest <;> rfl
  unfold checkerValueInPropRange
  split
  · simp only [he, List.map_cons, List.map_map, Function.comp_def, hf]
  · rfl

theorem checkerValueInRange_mapTails (hf : ∀ v, (f v).value = v.value) (inst : String)
    (a : Define) (key : String) (value : Value) (rest : List Value) :
    checkerValueInRange inst a ⟨key, value, rest.map f⟩ =
      checkerValueInRange inst a ⟨key, value, rest⟩ := by
  simp only [checkerValueInRange, checkerValueInPropRange_mapTails hf]

theorem checkPair_mapTails (hf : ∀ v, (f v).value = v.value) (a : Define) (i j : Nat)
    (st : Report × List Definition) :
    checkPair a i j (st.1, st.2.map (mapTails f)) =
      ((checkPair a i j st).1, (checkPair a i j st).2.map (mapTails f)) := by
  unfold checkPair
  rw [List.getElem?_map]
  cases st.2[i]? with
  | none => rfl
  | some d =>
    dsimp only [Option.map_some']
    rw [getElem?_mapTails]
    cases d.pairs[j]? with
    | none => rfl
    | some pair =>
      simp only [Option.map_some', setValueAt_mapTails, checkerResolveVariable_mapTails,
        checkerValueInRange_mapTails hf]
      rfl

theorem checkLine_mapTails (hf : ∀ v, (f v).value = v.value) (available : List Define)
    (root : List Definition) (i : Nat) (d : Definition) :
    checkLine available (root.map (mapTails f)) i (mapTails f d) =
      ((checkLine available root i d).1, (checkLine available root i d).2.map (mapTails f)) := by
  unfold checkLine
  rw [show checkerFindDefinition available (mapTails f d).type (mapTails f d).action =
    checkerFindDefinition available d.type d.action from rfl]
  cases checkerFindDefinition available d.type d.action with
  | none => rfl
  | some a =>
    have hinit : (checkNodes a (mapTails f d) (checkerCountNodes (mapTails f d)) ++
        checkOccurrences a (mapTails f d), (root.map (mapTails f)).modify (annotate a) i) =
        ((checkNodes a d (checkerCountNodes d) ++ checkOccurrences a d,
          (root.modify (annotate a) i).map (mapTails f)) : Report × List Definition) := by
      rw [← map_modify_comm (f := annotate a) (u := annotate a) (g := mapTails f) (fun _ => rfl)]
      simp only [checkOccurrences, checkerFindProperty_mapTails]
      rfl
    have hl : (mapTails f d).pairs.length = d.pairs.length := List.length_map _ _
    simp only [hinit, hl]
    exact foldl_comm (fun st : Report × List Definition => (st.1, st.2.map (mapTails f)))
      (fun st j => checkPair_mapTails hf a i j st) _
      (checkNodes a d (checkerCountNodes d) ++ checkOccurrences a d, root.modify (annotate a) i)

theorem countDefinitionFrom_mapTails (type inst : String) :
    ∀ (c : Nat) (root : List Definition),
      countDefinitionFrom type inst c (root.map (mapTails f)) =
        ((countDefinitionFrom type inst c root).1,
          (countDefinitionFrom type inst c root).2.map (mapTails f))
  | _, [] => rfl
  | c, d :: ds => by
    rw [List.map_cons]
    unfold countDefinitionFrom
    show (if d.type = type ∧ d.instance = inst then _ else _) = _
    split
    · rw [countDefinitionFrom_mapTails type inst (c + 1) ds]
      split <;> rfl
    · rw [countDefinitionFrom_mapTails type inst c ds]
      rfl

theorem checkDefinition_mapTails (hf : ∀ v, (f v).value = v.value) (available : List Define)
    (st : Report × List Definition) (i : Nat) :
    checkDefinition available (st.1, st.2.map (mapTails f)) i =
      ((checkDefinition available st i).1,
        (checkDefinition available st i).2.map (mapTails f)) := by
  unfold checkDefinition
  rw [List.getElem?_map]
  cases st.2[i]? with
  | none => rfl
  | some d =>
    dsimp only [Option.map_some']
    rw [checkLine_mapTails hf]
    simp only [checkerCountDefinition]
    rw [show (mapTails f d).type = d.type from rfl,
      show (mapTails f d).instance = d.instance from rfl,
      countDefinitionFrom_mapTails, List.getElem?_map, Option.map_map]
    rfl

end Tails

/-- The line checks of `netlist_checker_intern` read of a value after the head of a property
only its number: with every such value rewritten to any value of the same number (its scale,
unit or identifier changed), the loop reports the same, and leaves the same lines with the same
rewrite. -/
theorem line_checks_read_tail_numbers (available : List Define) (L : List Definition)
    (f : Value → Value) (hf : ∀ v, (f v).value = v.value) :
    ((List.range L.length).foldl (checkDefinition available) ({}, L.map (mapTails f))).1 =
      ((List.range L.length).foldl (checkDefinition available) ({}, L)).1 ∧
    ((List.range L.length).foldl (checkDefinition available) ({}, L.map (mapTails f))).2 =
      ((List.range L.length).foldl (checkDefinition available) ({}, L)).2.map (mapTails f) := by
  rw [foldl_comm (fun st : Report × List Definition => (st.1, st.2.map (mapTails f)))
    (checkDefinition_mapTails hf available) _ ({}, L)]
  exact ⟨rfl, rfl⟩

/-- A catalog whose `.SP` entry takes an identifier `Type` and a list `Values` of numbers in
`[0, 100]`. -/
def rangedCatalog : List Define :=
  [{ type := "SP", action := true, nodes := .exactly 0, required := [{ key := "Type", isVal := false }],
     optional := [{ key := "Values", isVal := true, isLst := true, range := some (0, 100) }] }]

/-- The sweep `.SP:SP1 Type=list Values=[1; 2k]`: the tail `2k` is the number 2 with the scale
`k`, that is 2000 once folded. -/
def scaledValues : List Definition :=
  [{ type := "SP", «instance» := "SP1", action := true,
     pairs := [identPair "Type" "list",
       { key := "Values", value := { value := 1 }, rest := [{ value := 2, scale := some "k" }] }],
     sub := [] }]

theorem tail_scale_unread :
    (∀ v : Value, ({ v with scale := none } : Value).value = v.value) ∧
    ((List.range scaledValues.length).foldl (checkDefinition rangedCatalog)
        ({}, scaledValues.map (mapTails fun v => { v with scale := none }))).1 =
      ((List.range scaledValues.length).foldl (checkDefinition rangedCatalog)
        ({}, scaledValues)).1 ∧
    ((List.range scaledValues.length).foldl (checkDefinition rangedCatalog)
        ({}, scaledValues.map (mapTails fun v => { v with scale := none }))).2 =
      ((List.range scaledValues.length).foldl (checkDefinition rangedCatalog)
        ({}, scaledValues)).2.map (mapTails fun v => { v with scale := none }) :=
  ⟨fun _ => rfl, line_checks_read_tail_numbers rangedCatalog scaledValues _ fun _ => rfl⟩

end QucsNetlist
