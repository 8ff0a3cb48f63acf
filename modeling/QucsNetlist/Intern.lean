import QucsNetlist.SubCycles

/-! # Checks of one list (`netlist_checker_intern`, `check_netlist.cpp:1426-1527`)

Every line is looked up in the catalog, its nodes and properties are counted against the
entry, each property value is scaled (`checker_evaluate_scale`), range checked and, when it
is an identifier, resolved against six domains (`checker_resolve_variable`); lines sharing a
type and instance name are counted. Then come the microstrip substrates, the subcircuit
instances and the nodesets of the list. The checks annotate lines in place: the model threads
the list and addresses a line by its position and a property by its position in the line.
-/

namespace QucsNetlist

/-! ### Writes into the list -/

/-- Rewrites the head value of pair `j` of line `i` (a write through `pair->value`). -/
def setValueAt (root : List Definition) (i j : Nat) (f : Value → Value) : List Definition :=
  root.modify (fun d => { d with pairs := d.pairs.modify (fun p => { p with value := f p.value }) j }) i

/-! ### Property values -/

/-- The unit prefixes of `checker_evaluate_scale` and their factors. -/
def scaleFactor : Char → Option Float
  | 'T' => some 1e12
  | 'G' => some 1e9
  | 'M' => some 1e6
  | 'k' => some 1e3
  | 'm' => some 1e-3
  | 'u' => some 1e-6
  | 'n' => some 1e-9
  | 'p' => some 1e-12
  | 'f' => some 1e-15
  | 'a' => some 1e-18
  | _ => none

/-- The number and the unit text left after reading the scale of `val`: a prefix letter
multiplies, `dB` turns decibels into a ratio and `dBm` scales that ratio by `1e-3`. -/
def scaleOf (val : Float) : List Char → Float × List Char
  | [] => (val, [])
  | c :: cs =>
    match scaleFactor c with
    | some f => (val * f, cs)
    | none =>
      if c = 'd' then
        match cs with
        | 'B' :: 'm' :: r => (Float.pow 10 (val / 10) * 1e-3, r)
        | 'B' :: r => (Float.pow 10 (val / 10), r)
        | r => (val, r)
      else (val, c :: cs)

/-- `checker_evaluate_scale`: folds the scale into the number, keeps the text after it as the
unit and drops the scale. Without a scale the factor is `1.0`, which leaves the number as it
is. It always returns success. -/
def checkerEvaluateScale (v : Value) : Value :=
  match v.scale with
  | none => v
  | some s =>
    let r := scaleOf v.value s.toList
    { v with value := r.1, unit := if r.2 = [] then v.unit else some (String.mk r.2),
             scale := none }

@[simp] theorem checkerEvaluateScale_ident (v : Value) :
    (checkerEvaluateScale v).ident = v.ident := by
  unfold checkerEvaluateScale; split <;> rfl

/-- `modf (x, &i) != 0`: `x` has a nonzero fractional part (infinities have none, `NaN`
compares unequal to zero). -/
def hasFraction (x : Float) : Bool :=
  !x.isInf && (x - (if x < 0 then x.ceil else x.floor)) != 0

/-- `checker_value_in_prop_range`: a property checked against one descriptor of its entry. -/
def checkerValueInPropRange (inst : String) (a : Define) (pair : Pair) (prop : Property) :
    Report :=
  if prop.isVal then
    Report.when (!prop.isLst && !pair.rest.isEmpty) (.notSingle pair.key a.type inst) ++
    (match prop.range with
      | some (l, h) => Report.concat ((pair.value :: pair.rest).map fun v =>
          Report.when (v.value < l || v.value > h) (.outOfRange pair.key v.value l h a.type inst))
      | none => {}) ++
    Report.when (prop.isInt && hasFraction pair.value.value)
      (.notInteger pair.key pair.value.value a.type inst)
  else
    Report.when pair.value.ident.isNone (.notIdentifier pair.key pair.value.value a.type inst)

/-- `checker_value_in_range`: success when no descriptor with the pair's key finds an error,
and the messages. -/
def checkerValueInRange (inst : String) (a : Define) (pair : Pair) : Bool × List Diagnostic :=
  let r := Report.concat (((a.required ++ a.optional).filter (·.key == pair.key)).map
    (checkerValueInPropRange inst a pair))
  (r.errors == 0, r.log)

/-! ### Identifiers -/

/-- `special_t`: a property of a component type restricted to some identifiers. -/
structure Special where
  type : String
  key : String
  value : List String

/-- `checker_specials`. -/
def checkerSpecials : List Special :=
  [⟨"JFET", "Type", ["nfet", "pfet"]⟩,
   ⟨"BJT", "Type", ["npn", "pnp"]⟩,
   ⟨"MOSFET", "Type", ["nfet", "pfet"]⟩,
   ⟨"SP", "Noise", ["yes", "no"]⟩,
   ⟨"SP", "Type", ["lin", "log", "list", "const"]⟩,
   ⟨"AC", "Type", ["lin", "log", "list", "const"]⟩,
   ⟨"AC", "Noise", ["yes", "no"]⟩,
   ⟨"DC", "saveOPs", ["yes", "no"]⟩,
   ⟨"DC", "saveAll", ["yes", "no"]⟩,
   ⟨"DC", "convHelper", ["none", "SourceStepping", "gMinStepping", "LineSearch",
     "Attenuation", "SteepestDescent"]⟩,
   ⟨"TR", "Type", ["lin", "log"]⟩,
   ⟨"TR", "IntegrationMethod", ["Euler", "Trapezoidal", "Gear", "AdamsMoulton"]⟩,
   ⟨"MLIN", "DispModel", ["Kirschning", "Kobayashi", "Yamashita", "Getsinger", "Schneider",
     "Pramanick", "Hammerstad"]⟩,
   ⟨"MLIN", "Model", ["Wheeler", "Schneider", "Hammerstad"]⟩,
   ⟨"CLIN", "Backside", ["Metal", "Air"]⟩,
   ⟨"SW", "Type", ["lin", "log", "list", "const"]⟩,
   ⟨"SPfile", "Data", ["rectangular", "polar"]⟩,
   ⟨"MSTEP", "MSDispModel", ["Kirschning", "Kobayashi", "Yamashita", "Getsinger", "Schneider",
     "Pramanick", "Hammerstad"]⟩,
   ⟨"MSTEP", "MSModel", ["Wheeler", "Schneider", "Hammerstad"]⟩,
   ⟨"MOPEN", "MSDispModel", ["Kirschning", "Kobayashi", "Yamashita", "Getsinger", "Schneider",
     "Pramanick", "Hammerstad"]⟩,
   ⟨"MOPEN", "MSModel", ["Wheeler", "Schneider", "Hammerstad"]⟩,
   ⟨"MOPEN", "Model", ["Kirschning", "Hammerstad", "Alexopoulos"]⟩,
   ⟨"MGAP", "MSDispModel", ["Kirschning", "Kobayashi", "Yamashita", "Getsinger", "Schneider",
     "Pramanick", "Hammerstad"]⟩,
   ⟨"MGAP", "MSModel", ["Wheeler", "Schneider", "Hammerstad"]⟩,
   ⟨"MCOUPLED", "Model", ["Kirschning", "Hammerstad"]⟩,
   ⟨"MCOUPLED", "DispModel", ["Kirschning", "Getsinger"]⟩]

/-- `checker_validate_special`: the number of allowed identifiers matched so far, over every
special whose type and key carry `ident` somewhere in the list; while nothing matched, each
such special logs a message. -/
def checkerValidateSpecial (root : List Definition) (d : Definition) (ident : String) :
    Nat × List Diagnostic :=
  checkerSpecials.foldl (fun acc sp =>
    if (checkerFindVariable root sp.type sp.key ident).isSome then
      let found := acc.1 + sp.value.count ident
      (found, if found = 0 then acc.2 ++ [.notValidSpecial d.line ident sp.key d.type d.instance]
        else acc.2)
    else acc) (0, [])

/-- A loop that adds `c x` to a count at each element ends at zero exactly when it started at zero
and every `c x` is zero. -/
theorem foldl_add_eq_zero {α β : Type} {f : Nat × β → α → Nat × β} {c : α → Nat}
    (hf : ∀ acc x, (f acc x).1 = acc.1 + c x) :
    ∀ (l : List α) (acc : Nat × β), (l.foldl f acc).1 = 0 ↔ acc.1 = 0 ∧ ∀ x ∈ l, c x = 0
  | [], _ => by simp
  | x :: l, acc => by
    rw [List.foldl_cons, foldl_add_eq_zero hf l, hf]
    simp only [Nat.add_eq_zero, List.forall_mem_cons, and_assoc]

/-- The special-value domain of `checker_resolve_variable` counts an identifier as found when some
entry of `checker_specials` allows it and a line of the entry's type carries it under the entry's
key: the type and key of the line being resolved play no part. -/
theorem checkerValidateSpecial_found (root : List Definition) (d : Definition) (ident : String) :
    (checkerValidateSpecial root d ident).1 ≠ 0 ↔
      ∃ sp ∈ checkerSpecials, ident ∈ sp.value ∧
        (checkerFindVariable root sp.type sp.key ident).isSome := by
  unfold checkerValidateSpecial
  rw [Ne, foldl_add_eq_zero (c := fun sp =>
    if (checkerFindVariable root sp.type sp.key ident).isSome then sp.value.count ident else 0)
    (fun acc sp => by dsimp only; split <;> simp)]
  simp [List.count_eq_zero, and_comm]

/-- `strip_available`: the microstrip components. -/
def stripAvailable : List String :=
  ["MLIN", "MCORN", "MMBEND", "MSTEP", "MOPEN", "MGAP", "MCOUPLED", "MTEE", "MCROSS", "MVIA",
   "CLIN"]

/-- `checker_find_substrate`: the `Subst` reference of a microstrip line, if it is `ident`. -/
def checkerFindSubstrate (d : Definition) (ident : String) : Option String :=
  if d.type ∈ stripAvailable then (checkerFindReference d "Subst").filter (· == ident) else none

/-- `checker_resolve_variable` for the head value of pair `j` of line `i`: success, the list
with the sweep tags and the substrate mark written, and the messages. The six domains are
all tried and their matches counted. -/
def checkerResolveVariable (root : List Definition) (i j : Nat) :
    Bool × List Definition × List Diagnostic :=
  match root[i]? with
  | none => (true, root, [])
  | some d =>
    match (d.pairs[j]?).bind (·.value.ident) with
    | none => (true, root, [])
    | some ident =>
      let tag : Value → Value := fun v => { v with var := .double }
      let sweep := (checkerFindVariable root "SW" "Param" ident).isSome
      let root := if sweep then setValueAt (modifyVariable root "SW" "Param" ident tag) i j tag
        else root
      let subst := (checkerFindSubstrate d ident).isSome
      let root := if subst then setValueAt root i j fun v => { v with subst := true } else root
      let special := checkerValidateSpecial root d ident
      let found := [sweep, (checkerFindVariable root "SW" "Sim" ident).isSome, subst,
        (checkerFindVariable root "Sub" "Type" ident).isSome, special.1 != 0,
        (checkerFindVariable root "SPfile" "File" ident).isSome].count true
      if found = 0 then
        (false, root, special.2 ++ [.noSuchVariable d.line ident d.type d.instance])
      else (true, root, special.2)

/-! ### One line -/

/-- The checks of pair `j` of line `i` against its catalog entry `a`
(`check_netlist.cpp:1491-1510`). -/
def checkPair (a : Define) (i j : Nat) (st : Report × List Definition) :
    Report × List Definition :=
  match st.2[i]? with
  | none => st
  | some d =>
    match d.pairs[j]? with
    | none => st
    | some pair =>
      let extra := Report.when (!checkerIsProperty a pair.key)
        (.extraneous d.line pair.key d.type d.instance)
      let root := setValueAt st.2 i j checkerEvaluateScale
      let range := checkerValueInRange d.instance a
        { pair with value := checkerEvaluateScale pair.value }
      let resolve := checkerResolveVariable root i j
      (st.1 ++ extra ++ ⟨if range.1 then 0 else 1, range.2⟩ ++
        ⟨if resolve.1 then 0 else 1, resolve.2.2⟩, resolve.2.1)

/-- The node count of a line against its entry. -/
def checkNodes (a : Define) (d : Definition) (n : Nat) : Report :=
  match a.nodes with
  | .atLeastOne => Report.when (n < 1) (.nodesAtLeastOne d.line d.type d.instance n)
  | .exactly k => Report.when (k != n) (.nodesRequired d.line k d.type d.instance n)

/-- Each required property once, each optional one at most once. -/
def checkOccurrences (a : Define) (d : Definition) : Report :=
  Report.concat (a.required.map fun p =>
    let n := checkerFindProperty p.key d.pairs
    Report.when (n != 1) (.requiredOccurred d.line p.key n d.type d.instance)) ++
  Report.concat (a.optional.map fun p =>
    let n := checkerFindProperty p.key d.pairs
    Report.when (n ≥ 2) (.optionalOccurred d.line p.key n d.type d.instance))

/-- The annotations of a line found in the catalog. -/
def annotate (a : Define) (d : Definition) : Definition :=
  { d with nodeset := d.type == "NodeSet", nonlinear := a.nonlinear, substrate := a.substrate,
           define := some a, ncount := checkerCountNodes d }

/-- The catalog checks of line `i`, `d`, of `root` (`check_netlist.cpp:1435-1509`): the report,
and the list with the line annotated and its property values rewritten. -/
def checkLine (available : List Define) (root : List Definition) (i : Nat) (d : Definition) :
    Report × List Definition :=
  match checkerFindDefinition available d.type d.action with
  | none => (.error (.invalidType d.line d.type), root)
  | some a =>
    let n := checkerCountNodes d
    (List.range d.pairs.length).foldl (fun st j => checkPair a i j st)
      (checkNodes a d n ++ checkOccurrences a d, root.modify (annotate a) i)

/-- The loop body of `netlist_checker_intern` for line `i` (`check_netlist.cpp:1433-1519`). -/
def checkDefinition (available : List Define) (st : Report × List Definition) (i : Nat) :
    Report × List Definition :=
  match st.2[i]? with
  | none => st
  | some d =>
    let checked := checkLine available st.2 i d
    let count := checkerCountDefinition checked.2 d.type d.instance
    let dup := (count.2[i]?.map (·.duplicate)).getD false
    (st.1 ++ checked.1 ++ Report.when (count.1 != 1 && !dup) (.definitions count.1 d.type d.instance),
      count.2)

/-! ### Whole-list checks -/

/-- One line of `checker_validate_strips`. -/
def validateStrip (st : Report × List Definition) (i : Nat) : Report × List Definition :=
  match st.2[i]? with
  | none => st
  | some d =>
    if !d.action && d.type ∈ stripAvailable then
      match checkerFindReference d "Subst" with
      | none => (st.1 ++ .error (.notValidReference d.line "Subst" d.type d.instance), st.2)
      | some v =>
        let count := checkerCountDefinition st.2 "SUBST" v
        (st.1 ++ Report.when (count.1 != 1) (.noSuchSubstrate d.line v d.type d.instance), count.2)
    else st

/-- `checker_validate_strips`. -/
def checkerValidateStrips (root : List Definition) : Report × List Definition :=
  (List.range root.length).foldl validateStrip ({}, root)

/-- `checker_count_nodes (root, n)`: occurrences of node `n` in components that are not
nodesets. -/
def checkerCountNodesNamed (root : List Definition) (n : Option String) : Nat :=
  (root.filter fun d => !d.action && !d.nodeset).foldr
    (fun d c => c + d.nodes.countP (·.node == n)) 0

/-- `checker_count_nodesets`: nodesets not yet marked duplicate that name `n`; every one after
the first is marked. It reads the first node of every such nodeset, which a nodeset without
nodes does not have. -/
def countNodesetsFrom (n : Option String) (count : Nat) :
    List Definition → Except Fault (Nat × List Definition)
  | [] => pure (count, [])
  | d :: ds =>
    if d.nodeset && !d.duplicate then
      match d.nodes with
      | [] => throw (.nullDeref "checker_count_nodesets: def->nodes->node")
      | node :: _ =>
        if node.node == n then do
          let r ← countNodesetsFrom n (count + 1) ds
          pure (r.1, (if count + 1 > 1 then { d with duplicate := true } else d) :: r.2)
        else do
          let r ← countNodesetsFrom n count ds
          pure (r.1, d :: r.2)
    else do
      let r ← countNodesetsFrom n count ds
      pure (r.1, d :: r.2)

/-- `checker_count_nodesets`. -/
def checkerCountNodesets (root : List Definition) (n : Option String) :
    Except Fault (Nat × List Definition) :=
  countNodesetsFrom n 0 root

/-- One line of `checker_validate_nodesets`. -/
def validateNodeset (st : Report × List Definition) (i : Nat) :
    Except Fault (Report × List Definition) :=
  match st.2[i]? with
  | none => pure st
  | some d =>
    match d.nodeset, d.nodes with
    | true, [node] => do
      let missing := Report.when (checkerCountNodesNamed st.2 node.node ≤ 0)
        (.noSuchNode d.line node.node d.type d.instance)
      let count ← checkerCountNodesets st.2 node.node
      pure (st.1 ++ missing ++
        Report.when (count.1 > 1) (.nodeNotUnique d.line node.node d.type d.instance), count.2)
    | _, _ => pure st

/-- `checker_validate_nodesets`. -/
def checkerValidateNodesets (root : List Definition) : Except Fault (Report × List Definition) :=
  (List.range root.length).foldlM validateNodeset ({}, root)

/-- `netlist_checker_intern (root)`: the report, the value last stored in `checker_sub_cycles`
and the annotated list. `regOf` gives `subcircuit_root` as it stands once the line checks
are done: the list itself when the list checked is the registry, the registry around it when
it is a template body. -/
def netlistCheckerIntern (available : List Define) (regOf : List Definition → List Definition)
    (fuel : Nat) (root : List Definition) : Except Fault (Report × Option Nat × List Definition) := do
  let lines := (List.range root.length).foldl (checkDefinition available) ({}, root)
  let strips := checkerValidateStrips lines.2
  let subs ← checkerValidateSubcircuits (regOf strips.2) fuel strips.2
  let nodesets ← checkerValidateNodesets strips.2
  pure (lines.1 ++ strips.1 ++ ⟨subs.1, subs.2.2⟩ ++ nodesets.1, subs.2.1, nodesets.2)

end QucsNetlist
