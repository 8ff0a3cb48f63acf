import QucsNetlist.Intern

/-! # Checks of the actions (`checker_validate_actions`, `check_netlist.cpp:414-692`)

Run once on the top-level list after every list has had its line checks: the number of
actions, a `Pac` port for an S-parameter analysis, a single `.DC` that a nonlinear circuit
under AC or SP analysis requires (nonlinear lines counted through subcircuit templates while
`checker_sub_cycles` is not positive), the parameter sweeps with their `Sim` chains, unique
port numbers and the sweep type properties.
-/

namespace QucsNetlist

/-- One line of `checker_count_nonlinearities`; `recurse` is the recursive call. -/
def countStep (reg : List Definition) (cycles : Nat)
    (recurse : List Definition → Except Fault Nat) (count : Nat) (d : Definition) :
    Except Fault Nat := do
  let count := if d.nonlinear then count + 1 else count
  if cycles = 0 ∧ d.type = "Sub" then
    match checkerGetSubcircuit reg d with
    | some sub => return count + (← recurse sub.sub)
    | none => return count
  else return count

/-- `checker_count_nonlinearities`: nonlinear lines of the list and, while `cycles`
(`checker_sub_cycles`) is not positive, of the templates its `Sub` lines name, recursively;
`fuel` bounds the recursion depth. -/
def checkerCountNonlinearities (reg : List Definition) (cycles : Nat) :
    Nat → List Definition → Except Fault Nat
  | 0, _ => throw .outOfFuel
  | fuel + 1, root => root.foldlM (countStep reg cycles (checkerCountNonlinearities reg cycles fuel)) 0

section Nonlinearities

variable {reg : List Definition} {cycles : Nat}

theorem countStep_error {recurse : List Definition → Except Fault Nat} {count : Nat}
    {d : Definition} {e : Fault} (h : countStep reg cycles recurse count d = .error e) :
    ∃ l, recurse l = .error e := by
  simp only [countStep] at h
  split at h
  · split at h
    · cases hr : recurse _ with
      | error e' => rw [hr] at h; cases h; exact ⟨_, hr⟩
      | ok n => rw [hr] at h; cases h
    · cases h
  · cases h

/-- The count fails only by running out of fuel: it has no other fault. -/
theorem checkerCountNonlinearities_error :
    ∀ {fuel : Nat} {root : List Definition} {e : Fault},
      checkerCountNonlinearities reg cycles fuel root = .error e → e = .outOfFuel
  | 0, _, _, h => by cases h; rfl
  | _ + 1, _, _, h => by
    obtain ⟨d, -, count, hd⟩ := foldlM_error_mem h
    obtain ⟨l, hl⟩ := countStep_error hd
    exact checkerCountNonlinearities_error hl

/-- With `checker_sub_cycles` at zero, the count never returns from a list in a family where
every list has a `Sub` line naming a template whose body is again in the family, as a
template instantiating itself is. -/
theorem checkerCountNonlinearities_diverges {Loops : List Definition → Prop}
    (h : ∀ root, Loops root → ∃ d ∈ root, d.type = "Sub" ∧
      ∃ T, checkerGetSubcircuit reg d = some T ∧ Loops T.sub) :
    ∀ (fuel : Nat) (root : List Definition), Loops root →
      checkerCountNonlinearities reg 0 fuel root = .error .outOfFuel
  | 0, _, _ => rfl
  | fuel + 1, root, hroot => by
    obtain ⟨d, hd, hsub, T, hT, hloop⟩ := h root hroot
    refine foldlM_eq_error (fun _ _ _ _ he => ?_) ⟨d, hd, fun count => ?_⟩
    · obtain ⟨l, hl⟩ := countStep_error he
      exact checkerCountNonlinearities_error hl
    · simp [countStep, hsub, hT, checkerCountNonlinearities_diverges h fuel T.sub hloop]

/-- Without a `Sub` line naming a template the count reads no `checker_sub_cycles`. -/
theorem checkerCountNonlinearities_cycles {root : List Definition} {fuel : Nat} (c : Nat)
    (h : ∀ d ∈ root, d.type = "Sub" → checkerGetSubcircuit reg d = none) :
    checkerCountNonlinearities reg cycles fuel root = checkerCountNonlinearities reg c fuel root := by
  cases fuel with
  | zero => rfl
  | succ fuel =>
    refine foldlM_congr_mem fun count d hd => ?_
    by_cases hs : d.type = "Sub"
    · simp [countStep, hs, h d hd hs]
    · simp [countStep, hs]

end Nonlinearities

/-- The loop of `checker_validate_para_cycles` over the list for the action `inst`; `recurse`
is the recursive call on the analysis a sweep's `Sim` names. -/
def paraCyclesLoop (inst : String) (recurse : String → List String → Except Fault Report) :
    List Definition → List String → Except Fault Report
  | [], _ => pure {}
  | d :: ds, deps =>
    if d.action ∧ d.instance = inst then
      if inst ∈ deps then pure (.error (.cyclicSweep inst deps))
      else
        match (if d.type = "SW" then checkerFindReference d "Sim" else none) with
        | some v => recurse v (deps ++ [inst])
        | none => paraCyclesLoop inst recurse ds (deps ++ [inst])
    else paraCyclesLoop inst recurse ds deps

/-- `checker_validate_para_cycles (root, instance, deps)`. -/
def checkerValidateParaCycles (root : List Definition) :
    Nat → String → List String → Except Fault Report
  | 0, _, _ => throw .outOfFuel
  | fuel + 1, inst, deps => paraCyclesLoop inst (checkerValidateParaCycles root fuel) root deps

/-- One sweep of `checker_validate_para`. -/
def validatePara (root : List Definition) (fuel : Nat) (d : Definition) : Except Fault Report :=
  if d.action ∧ d.type = "SW" then
    match checkerFindReference d "Sim" with
    | none => pure (.error (.notValidReference d.line "Sim" d.type d.instance))
    | some v => do
      let cycles ← checkerValidateParaCycles root fuel v []
      pure (Report.when (d.instance == v) (.refersToItself d.line d.type d.instance) ++
        Report.when (checkerCountAction root v != 1) (.noSuchAction d.line v d.type d.instance) ++
        cycles)
  else pure {}

/-- `checker_validate_para`. -/
def checkerValidatePara (root : List Definition) (fuel : Nat) : Except Fault Report := do
  let rs ← root.mapM (validatePara root fuel)
  pure (Report.concat rs)

/-- The C cast `(int) x` of a double to the 32-bit `int`, as x86-64 performs it
(`cvttsd2si`): truncation toward zero, and `INT_MIN` when `x` is NaN or its truncation does not
fit in 32 bits. `Float.toUInt64` truncates exactly below `2^64` and saturates above. -/
def cInt (x : Float) : Int :=
  let t : Int := if x < 0 then -((-x).toUInt64.toNat : Int) else (x.toUInt64.toNat : Int)
  if x.isNaN ∨ t < -2147483648 ∨ 2147483647 < t then -2147483648 else t

/-- The cast always lands in the range of a 32-bit `int`. -/
theorem cInt_bounds (x : Float) : -2147483648 ≤ cInt x ∧ cInt x ≤ 2147483647 := by
  simp only [cInt]
  split_ifs <;> omega

/-- The `Pac` components of a list with their positions (`checker_find_port`). -/
def ports (root : List Definition) : List (Nat × Definition) :=
  root.enum.filter fun p => !p.2.action && p.2.type == "Pac"

/-- `checker_validate_ports`: every ordered pair of distinct `Pac` components whose numeric
`Num` values convert to the same `int` is an error. -/
def checkerValidatePorts (root : List Definition) : Report :=
  Report.concat ((ports root).map fun (k, d) =>
    match checkerFindPropValue d "Num" with
    | none => {}
    | some pv =>
      let p := cInt pv.value.value
      Report.concat ((ports root).map fun (m, port) =>
        match checkerFindPropValue port "Num" with
        | some pv' =>
          Report.when (m != k && p == cInt pv'.value.value)
            (.duplicatePort d.line d.type "Num" p d.instance port.type port.instance)
        | none => {}))

/-- A write through the pair `checker_find_prop_value` returns. -/
def modifyPropValue (d : Definition) (key : String) (f : Pair → Pair) : Definition :=
  { d with pairs := modifyFirst (fun p => p.key == key && p.value.ident.isNone) f d.pairs }

/-- The properties a sweep of type `type` must have and must not have, as
`checker_validate_lists` tests them. -/
def sweepProperty (d : Definition) (key : String) (required : Bool) : Report :=
  match checkerFindPropValue d key, required with
  | none, true => .error (.requiredNotFound d.line key d.type d.instance)
  | some _, false => .error (.extraneous d.line key d.type d.instance)
  | _, _ => {}

/-- One line of `checker_validate_lists`. The `Type` value is read before its absence is
tested, so a sweep without an identifier `Type` dereferences `NULL`. -/
def validateList (st : Report × List Definition) (i : Nat) :
    Except Fault (Report × List Definition) :=
  match st.2[i]? with
  | none => pure st
  | some d =>
    if d.action ∧ (d.type = "SW" ∨ d.type = "AC" ∨ d.type = "SP") then
      match checkerFindReference d "Type" with
      | none => throw (.nullDeref "checker_validate_lists: val->ident")
      | some type =>
        if type = "const" ∨ type = "list" then
          match checkerFindPropValue d "Values" with
          | none =>
            pure (st.1 ++ sweepProperty d "Values" true ++ sweepProperty d "Start" false ++
              sweepProperty d "Stop" false ++ sweepProperty d "Points" false, st.2)
          | some pv =>
            let single := Report.when (type == "const" && !pv.rest.isEmpty)
              (.notConstant d.line "Values" d.type d.instance)
            let fold : Pair → Pair := fun p =>
              { p with value := checkerEvaluateScale { p.value with var := .vector },
                       rest := p.rest.map checkerEvaluateScale }
            pure (st.1 ++ single ++ sweepProperty d "Start" false ++ sweepProperty d "Stop" false ++
              sweepProperty d "Points" false, st.2.modify (modifyPropValue · "Values" fold) i)
        else if type = "lin" ∨ type = "log" then
          pure (st.1 ++ sweepProperty d "Start" true ++ sweepProperty d "Stop" true ++
            sweepProperty d "Points" true ++ sweepProperty d "Values" false, st.2)
        else pure st
    else pure st

/-- `checker_validate_lists`. -/
def checkerValidateLists (root : List Definition) : Except Fault (Report × List Definition) :=
  (List.range root.length).foldlM validateList ({}, root)

/-- A line of `checker_validate_lists` either keeps the list or rewrites the `Values` of the
action it checks. -/
theorem validateList_cases {st st' : Report × List Definition} {i : Nat}
    (h : validateList st i = .ok st') :
    st'.2 = st.2 ∨ ∃ d f, st.2[i]? = some d ∧ d.action = true ∧
      (∀ p, (f p).key = p.key ∧ (f p).value.ident = p.value.ident ∧
        (f p).rest.isEmpty = p.rest.isEmpty) ∧
      st'.2 = st.2.modify (modifyPropValue · "Values" f) i := by
  unfold validateList at h
  split at h
  · cases h; exact .inl rfl
  · rename_i d hd
    split at h
    · rename_i hact
      repeat' split at h
      all_goals first
        | (cases h; exact .inl rfl)
        | (cases h; exact .inr ⟨d, _, hd, hact.1, fun p => ⟨by rfl, by simp, by cases p.rest <;> rfl⟩, rfl⟩)
        | cases h
    · cases h; exact .inl rfl

/-- The analyses and the `.DC` action (`check_netlist.cpp:659-687`). -/
def checkAnalyses (reg : List Definition) (cycles fuel : Nat) (root : List Definition) :
    Except Fault Report :=
  if checkerCountDefinitions root none true < 1 then pure (.error .noActions)
  else do
    let sp := checkerCountDefinitions root "SP" true
    let pac := checkerCountDefinitions root "Pac" false
    let ports := Report.when (sp ≥ 1 && pac < 1) (.pacRequired pac)
    let a := sp + checkerCountDefinitions root "AC" true
    let c ← checkerCountNonlinearities reg cycles fuel root
    let n := checkerCountDefinitions root "DC" true
    pure (ports ++ Report.when (n > 1) (.dcDefined n) ++
      Report.when (a ≥ 1 && c ≥ 1 && n < 1) (.dcRequired c))

/-- `checker_validate_actions` with `checker_sub_cycles = cycles`. -/
def checkerValidateActions (reg : List Definition) (cycles fuel : Nat) (root : List Definition) :
    Except Fault (Report × List Definition) := do
  let analyses ← checkAnalyses reg cycles fuel root
  let para ← checkerValidatePara root fuel
  let lists ← checkerValidateLists root
  pure (analyses ++ para ++ checkerValidatePorts root ++ lists.1, lists.2)

/-- Without a `Sub` line naming a template the action checks read no `checker_sub_cycles`. -/
theorem checkerValidateActions_cycles {reg root : List Definition} {fuel : Nat} (c c' : Nat)
    (h : ∀ d ∈ root, d.type = "Sub" → checkerGetSubcircuit reg d = none) :
    checkerValidateActions reg c fuel root = checkerValidateActions reg c' fuel root := by
  simp only [checkerValidateActions, checkAnalyses, checkerCountNonlinearities_cycles c' h]

end QucsNetlist
