import QucsNetlist.Actions
import QucsNetlist.Expand

/-! # The checker pass (`netlist_checker`, `check_netlist.cpp:932-954`, `1596-1639`)

`netlist_checker` moves the `Def` lines, at any depth, into `subcircuit_root`, checks the
top-level list, the registry and each template body, then the actions, and expands the
subcircuits when no error was counted. The globals it works on, with the static
`checker_sub_cycles` that survives `netlist_destroy`, are threaded explicitly.
-/

namespace QucsNetlist

mutual
/-- `def->sub = checker_build_subcircuits (def->sub)` for a `Def` line, then its move to the
head of `subcircuit_root`. -/
def buildSubcircuit : Definition → List Definition → List Definition
  | d@{ sub := s, .. }, reg =>
    let r := checkerBuildSubcircuits s reg
    { d with sub := r.1 } :: r.2

/-- `checker_build_subcircuits (root)`: the list without its `Def` lines, and `subcircuit_root`
with every `Def` line found, at any depth, pushed on its head. -/
def checkerBuildSubcircuits : List Definition → List Definition → List Definition × List Definition
  | [], reg => ([], reg)
  | d :: ds, reg =>
    if d.type = "Def" then checkerBuildSubcircuits ds (buildSubcircuit d reg)
    else
      let r := checkerBuildSubcircuits ds reg
      (d :: r.1, r.2)
end

/-! ### The templates moved into the registry -/

mutual
/-- Modelled from the spec: the template a `Def` line becomes, its body without its `Def` lines,
followed by the templates of its body at any depth, in document order; nothing for another
line. -/
def lineTemplates : Definition → List Definition
  | d@{ sub := s, .. } =>
    if d.type = "Def" then { d with sub := s.filter (·.type ≠ "Def") } :: templatesOf s else []

/-- Modelled from the spec: the templates of the `Def` lines of a list, at any depth. -/
def templatesOf : List Definition → List Definition
  | [] => []
  | d :: ds => lineTemplates d ++ templatesOf ds
end

theorem lineTemplates_eq (d : Definition) : lineTemplates d =
    if d.type = "Def" then { d with sub := d.sub.filter (·.type ≠ "Def") } :: templatesOf d.sub
    else [] := by
  cases d; rfl

theorem buildSubcircuit_eq (d : Definition) (reg : List Definition) :
    buildSubcircuit d reg =
      { d with sub := (checkerBuildSubcircuits d.sub reg).1 } :: (checkerBuildSubcircuits d.sub reg).2 := by
  cases d; rfl

/-- The list `checker_build_subcircuits` returns is its input without the `Def` lines. -/
theorem checkerBuildSubcircuits_fst :
    ∀ (l reg : List Definition), (checkerBuildSubcircuits l reg).1 = l.filter (·.type ≠ "Def")
  | [], _ => rfl
  | d :: ds, reg => by
    unfold checkerBuildSubcircuits
    split
    · rename_i h
      rw [checkerBuildSubcircuits_fst ds, List.filter_cons_of_neg (by simpa using h)]
    · rename_i h
      rw [List.filter_cons_of_pos (by simpa using h), ← checkerBuildSubcircuits_fst ds reg]

mutual
/-- What a `Def` line adds before the registry: its template and those of its body, in some
order. -/
theorem buildSubcircuit_snd : ∀ (d : Definition) (reg : List Definition), d.type = "Def" →
    ∃ X, buildSubcircuit d reg = X ++ reg ∧ X.Perm (lineTemplates d)
  | d@{ sub := s, .. }, reg, hd => by
    obtain ⟨X, hX, hp⟩ := checkerBuildSubcircuits_snd s reg
    subst d
    rw [buildSubcircuit_eq, lineTemplates_eq, if_pos hd]
    exact ⟨_ :: X, by rw [hX, checkerBuildSubcircuits_fst, List.cons_append], hp.cons _⟩

theorem checkerBuildSubcircuits_snd : ∀ (l reg : List Definition),
    ∃ X, (checkerBuildSubcircuits l reg).2 = X ++ reg ∧ X.Perm (templatesOf l)
  | [], _ => ⟨[], rfl, .nil⟩
  | d :: ds, reg => by
    unfold checkerBuildSubcircuits
    split
    · rename_i hd
      obtain ⟨Y, hY, hpY⟩ := buildSubcircuit_snd d reg hd
      obtain ⟨Z, hZ, hpZ⟩ := checkerBuildSubcircuits_snd ds (buildSubcircuit d reg)
      exact ⟨Z ++ Y, by rw [hZ, hY, List.append_assoc],
        (hpZ.append hpY).trans List.perm_append_comm⟩
    · rename_i hd
      obtain ⟨Z, hZ, hpZ⟩ := checkerBuildSubcircuits_snd ds reg
      refine ⟨Z, hZ, ?_⟩
      rw [templatesOf, lineTemplates_eq, if_neg hd, List.nil_append]
      exact hpZ
end

mutual
theorem lineTemplates_sub : ∀ (d : Definition), ∀ T ∈ lineTemplates d, ∀ e ∈ T.sub, e.type ≠ "Def"
  | d@{ sub := s, .. } => by
    subst d
    intro T hT e he
    rw [lineTemplates_eq] at hT
    split at hT
    · rcases List.mem_cons.mp hT with rfl | hT
      · simpa using (List.mem_filter.mp he).2
      · exact templatesOf_sub s T hT e he
    · cases hT

theorem templatesOf_sub : ∀ (l : List Definition), ∀ T ∈ templatesOf l, ∀ e ∈ T.sub, e.type ≠ "Def"
  | [] => fun _ h => absurd h (List.not_mem_nil _)
  | d :: ds => fun T hT =>
    (List.mem_append.mp hT).elim (lineTemplates_sub d T) (templatesOf_sub ds T)
end

/-- `checker_build_subcircuits` returns the list without its `Def` lines, the others in their
order, and puts before the registry it started from the templates of every `Def` line at any
depth, each once, in some order, and none with a `Def` line left in its body. -/
theorem build_subcircuits_partition (L R : List Definition) :
    (checkerBuildSubcircuits L R).1 = L.filter (·.type ≠ "Def") ∧
      ∃ X, (checkerBuildSubcircuits L R).2 = X ++ R ∧ X.Perm (templatesOf L) ∧
        ∀ T ∈ X, ∀ e ∈ T.sub, e.type ≠ "Def" :=
  let ⟨X, hX, hp⟩ := checkerBuildSubcircuits_snd L R
  ⟨checkerBuildSubcircuits_fst L R, X, hX, hp, fun T hT => templatesOf_sub L T (hp.subset hT)⟩

/-- The globals of the pass: `definition_root`, `subcircuit_root` and `checker_sub_cycles`. -/
structure Globals where
  definitionRoot : List Definition
  subcircuitRoot : List Definition := []
  subCycles : Nat := 0
  deriving Repr

/-- Template `k` in the loop of `netlist_checker` over the template bodies
(`check_netlist.cpp:1608-1610`): the report, the value last stored in `checker_sub_cycles`
and the registry. -/
def checkBody (available : List Define) (fuel : Nat) (st : Report × Option Nat × List Definition)
    (k : Nat) : Except Fault (Report × Option Nat × List Definition) :=
  match st.2.2[k]? with
  | none => pure st
  | some T => do
    let setBody := fun b => st.2.2.modify (fun T => { T with sub := b }) k
    let r ← netlistCheckerIntern available setBody fuel T.sub
    pure (st.1 ++ r.1, r.2.1.or st.2.1, setBody r.2.2)

/-- The loop of `netlist_checker` over the template bodies. -/
def checkBodies (available : List Define) (fuel : Nat) (reg : List Definition) :
    Except Fault (Report × Option Nat × List Definition) :=
  (List.range reg.length).foldlM (checkBody available fuel) ({}, none, reg)

/-- The line checks of `netlist_checker` (`check_netlist.cpp:1601-1610`) on the top-level
list and the registry: the report, the value they last stored in `checker_sub_cycles` (none
when no `Sub` line stored one), and the checked top-level list and registry. -/
def checkLists (available : List Define) (fuel : Nat) (root reg : List Definition) :
    Except Fault (Report × Option Nat × List Definition × List Definition) := do
  let (root, reg) := checkerBuildSubcircuits root reg
  let top ← netlistCheckerIntern available (fun _ => reg) fuel root
  let defs ← netlistCheckerIntern available id fuel reg
  let bodies ← checkBodies available fuel defs.2.2
  pure (top.1 ++ defs.1 ++ bodies.1, bodies.2.1.or (defs.2.1.or top.2.1), top.2.2, bodies.2.2)

/-- The checks of `netlist_checker` (`check_netlist.cpp:1601-1612`): the report and the
globals they leave. -/
def netlistCheckerValidate (available : List Define) (fuel : Nat) (g : Globals) :
    Except Fault (Report × Globals) := do
  let (r, stored, root, reg) ← checkLists available fuel g.definitionRoot g.subcircuitRoot
  let cycles := stored.getD g.subCycles
  let actions ← checkerValidateActions reg cycles fuel root
  pure (r ++ actions.1, { definitionRoot := actions.2, subcircuitRoot := reg, subCycles := cycles })

/-- `netlist_checker`: `0` and the expanded netlist when no error was counted, `-1` otherwise,
with the messages logged. -/
def netlistChecker (available : List Define) (fuel : Nat) (g : Globals) :
    Except Fault (Int × Globals × List Diagnostic) := do
  let (r, g) ← netlistCheckerValidate available fuel g
  if r.errors = 0 then
    let (reg, root) ← checkerExpandSubcircuits fuel g.subcircuitRoot g.definitionRoot
    pure (0, { g with definitionRoot := root, subcircuitRoot := reg }, r.log)
  else pure (-1, g, r.log)

/-- `netlist_destroy`: both lists are released; `checker_sub_cycles` keeps its value. -/
def netlistDestroy (g : Globals) : Globals :=
  { g with definitionRoot := [], subcircuitRoot := [] }

/-- A catalog with the entries the netlists of this development use, shaped as `qucsdefs.h`
describes them: a `Def` or `Sub` line takes at least one node and a `Sub` line an identifier
`Type`; `R` and `Pac` take two nodes and a number; `.DC` takes no node and three optional
identifiers; `.SP` and `.SW` take an identifier `Type` and the sweep numbers, `.SW` also the
identifiers `Sim` and `Param`. -/
def sampleCatalog : List Define :=
  [{ type := "Def", action := false, nodes := .atLeastOne },
   { type := "Sub", action := false, nodes := .atLeastOne,
     required := [{ key := "Type", isVal := false }] },
   { type := "R", action := false, nodes := .exactly 2, required := [{ key := "R", isVal := true }] },
   { type := "Pac", action := false, nodes := .exactly 2,
     required := [{ key := "Num", isVal := true, isInt := true }] },
   { type := "DC", action := true, nodes := .exactly 0,
     optional := [{ key := "saveOPs", isVal := false }, { key := "saveAll", isVal := false },
       { key := "convHelper", isVal := false }] },
   { type := "SP", action := true, nodes := .exactly 0, required := [{ key := "Type", isVal := false }],
     optional := [{ key := "Start", isVal := true }, { key := "Stop", isVal := true },
       { key := "Points", isVal := true }, { key := "Values", isVal := true, isLst := true }] },
   { type := "SW", action := true, nodes := .exactly 0,
     required := [{ key := "Sim", isVal := false }, { key := "Param", isVal := false },
       { key := "Type", isVal := false }],
     optional := [{ key := "Start", isVal := true }, { key := "Stop", isVal := true },
       { key := "Points", isVal := true }, { key := "Values", isVal := true, isLst := true }] }]

/-- The catalog with the two transistors of `qucsdefs.h` the netlists of this development use:
nonlinear components with three nodes (`JFET`) or four (`BJT`) and an identifier `Type`. -/
def transistorCatalog : List Define :=
  sampleCatalog ++
    [{ type := "JFET", action := false, nodes := .exactly 3, nonlinear := true,
       optional := [{ key := "Type", isVal := false }] },
     { type := "BJT", action := false, nodes := .exactly 4, nonlinear := true,
       optional := [{ key := "Type", isVal := false }] }]

/-- The transistor catalog with an `.AC` analysis, which takes its properties as `.SP` does,
and with a `Pac` entry whose `Num` is any number, without the integer test. -/
def analysisCatalog : List Define :=
  transistorCatalog.map (fun a =>
      if a.type = "Pac" then { a with required := [{ key := "Num", isVal := true }] } else a) ++
    [{ type := "AC", action := true, nodes := .exactly 0, required := [{ key := "Type", isVal := false }],
       optional := [{ key := "Start", isVal := true }, { key := "Stop", isVal := true },
         { key := "Points", isVal := true }, { key := "Values", isVal := true, isLst := true }] }]

/-- A property holding an identifier. -/
def identPair (key ident : String) : Pair := { key, value := { ident := some ident } }

/-- A property holding a number. -/
def numberPair (key : String) (x : Float) : Pair := { key, value := { value := x } }

/-- A node as the parser makes it. -/
def namedNode (n : String) : Node := { node := some n }

/-- A top-level instance of a template whose body names a template that does not exist. The
search for cycles, run on the top-level list before any body is checked, follows the body's
`Sub` line to the missing template. -/
def danglingNetlist : List Definition :=
  [{ type := "Def", «instance» := "A", nodes := [namedNode "p"],
     sub := [{ type := "Sub", «instance» := "y", nodes := [namedNode "p"],
               pairs := [identPair "Type" "B"], sub := [] }] },
   { type := "Sub", «instance» := "x", nodes := [namedNode "a"], pairs := [identPair "Type" "A"],
     sub := [] }]

theorem dangling_template_crashes (fuel : Nat) :
    netlistChecker sampleCatalog (fuel + 1) { definitionRoot := danglingNetlist } =
      .error (.nullDeref "checker_validate_sub_cycles: sub->instance") := rfl

/-- A parameter sweep without a `Type` property. -/
def untypedSweep : Definition := { type := "SW", «instance» := "SW1", action := true, sub := [] }

theorem untyped_sweep_crashes (fuel : Nat) :
    netlistChecker sampleCatalog (fuel + 1) { definitionRoot := [untypedSweep] } =
      .error (.nullDeref "checker_validate_lists: val->ident") := rfl

/-- A `.DC` action whose `saveOPs` and `convHelper` are both `none`, an allowed value of
`convHelper` only. -/
def noneSettingsDC : Definition :=
  { type := "DC", «instance» := "DC1", action := true,
    pairs := [identPair "saveOPs" "none", identPair "convHelper" "none"], sub := [] }


theorem special_message_uncounted (fuel : Nat) :
    (netlistChecker sampleCatalog (fuel + 2) { definitionRoot := [noneSettingsDC] }).map
        (fun x => (x.1, x.2.2)) =
      .ok (0, [.notValidSpecial 0 "none" "saveOPs" "DC" "DC1",
        .notValidSpecial 0 "none" "saveOPs" "DC" "DC1"]) := rfl

/-- A JFET whose `Type` is `pnp`, an allowed value of the BJT's `Type` only, next to a BJT of that
type. -/
def crossTypeNetlist : List Definition :=
  [{ type := "JFET", «instance» := "J1", nodes := [namedNode "a", namedNode "b", namedNode "gnd"],
     pairs := [identPair "Type" "pnp"], sub := [] },
   { type := "BJT", «instance» := "Q1",
     nodes := [namedNode "a", namedNode "b", namedNode "c", namedNode "gnd"],
     pairs := [identPair "Type" "pnp"], sub := [] },
   { type := "DC", «instance» := "DC1", action := true, sub := [] }]

theorem jfet_takes_bjt_type (fuel : Nat) :
    (netlistChecker transistorCatalog (fuel + 4) { definitionRoot := crossTypeNetlist }).map
        (fun x => (x.1, x.2.2)) =
      .ok (0, [.notValidSpecial 0 "pnp" "Type" "JFET" "J1",
        .notValidSpecial 0 "pnp" "Type" "BJT" "Q1"]) := rfl

end QucsNetlist
