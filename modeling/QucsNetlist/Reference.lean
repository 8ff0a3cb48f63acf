import QucsNetlist.Accept

/-! # The reference flattening

What the expansion is for, stated directly: every top-level line that is not a `Sub` line
stays, and every instantiation chain `x0:T0 → x1:T1 → … → xk:Tk` (`x0` a top-level `Sub`
line, each `x(i+1)` a `Sub` line of the body of `Ti`, `Ti` the template its `Type` names)
gives one copy of each other line `e` of the body of `Tk`, named `Tk.x0.….xk.e`, whose nodes
are resolved directly: a formal port of `Tj` (the last one of that name) takes the resolution
of the actual node of `xj` at the same place, one level up, `gnd` stays, and any other node
`n` becomes `Tj.x0.….xj.n`. The chain is followed for `fuel` levels; past the depth of the
registry the fuel no longer matters when no cycle is reachable.
-/

namespace QucsNetlist

open Relation

/-- A line of the flattened netlist as the expansion's contract looks at it: its type, name,
flags, shared properties and node names. -/
structure Flat where
  type : String
  «instance» : String
  action : Bool
  nonlinear : Bool
  substrate : Bool
  nodeset : Bool
  define : Option Define
  pairs : List Pair
  nodes : List (Option String)

/-- The view of a line. -/
def Definition.flat (d : Definition) : Flat :=
  ⟨d.type, d.instance, d.action, d.nonlinear, d.substrate, d.nodeset, d.define, d.pairs,
    d.nodes.map (·.node)⟩

/-- The dotted name of `n` in template `T` along the instance path `path`. -/
def refName (T : String) (path : List String) (n : String) : String :=
  T ++ "." ++ ".".intercalate path ++ "." ++ n

/-- The formal port named `n`, counted from 1; the last one when the name is repeated. -/
def portOf : List Node → Option String → Option Nat
  | [], _ => none
  | p :: ps, n =>
    match portOf ps n with
    | some i => some (i + 1)
    | none => if p.node = n then some 1 else none

/-- The resolution of node `n` of a line of template `T`, for the instance at the end of
`path` whose actual nodes resolve to `act`. -/
def refNode (T : Definition) (path : List String) (act : List (Option String))
    (n : Option String) : Option String :=
  match portOf T.nodes n with
  | some i => act.getD (i - 1) none
  | none => if n = some "gnd" then n else n.map (refName T.instance path)

/-- The copies line `e` of template `T` gives for the instance at the end of `path`, whose
actual nodes resolve to `act`; `recurse` follows a `Sub` line one level down. -/
def refLine (recurse : List String → Definition → List (Option String) → List Flat)
    (T : Definition) (path : List String) (act : List (Option String)) (e : Definition) :
    List Flat :=
  let nodes := e.nodes.map fun n => refNode T path act n.node
  if e.type = "Sub" then recurse path e nodes
  else [{ e.flat with «instance» := refName T.instance path e.instance, nodes }]

/-- The copies the chains from the `Sub` line `x` give, `path` the instances above `x` and
`act` the resolution of its actual nodes. -/
def refInstance (reg : List Definition) :
    Nat → List String → Definition → List (Option String) → List Flat
  | 0, _, _, _ => []
  | fuel + 1, path, x, act =>
    match checkerGetSubcircuit reg x with
    | none => []
    | some T => T.sub.flatMap (refLine (refInstance reg fuel) T (path ++ [x.instance]) act)

/-- The reference flattening of a top-level list against the registry. -/
def refFlatten (reg root : List Definition) : List Flat :=
  root.flatMap fun d =>
    if d.type = "Sub" then refInstance reg (reg.length + 1) [] d (d.nodes.map (·.node))
    else [d.flat]

theorem portOf_pos : ∀ {ps : List Node} {n : Option String} {i : Nat}, portOf ps n = some i →
    0 < i ∧ i ≤ ps.length
  | [], _, _, h => by cases h
  | p :: ps, n, i, h => by
    unfold portOf at h
    split at h
    · rename_i j hj
      cases h
      have := portOf_pos hj
      simp only [List.length_cons]; omega
    · split at h <;> cases h
      simp

/-- The reference emits no `Sub` line. -/
theorem refInstance_type {reg : List Definition} :
    ∀ {fuel : Nat} {path : List String} {x : Definition} {act : List (Option String)},
      ∀ y ∈ refInstance reg fuel path x act, y.type ≠ "Sub"
  | 0, _, _, _, _, hy => by cases hy
  | fuel + 1, path, x, act, y, hy => by
    unfold refInstance at hy
    split at hy
    · cases hy
    obtain ⟨e, -, hy⟩ := List.mem_flatMap.mp hy
    unfold refLine at hy
    split at hy
    · exact refInstance_type y hy
    · rw [List.mem_singleton.mp hy]; assumption

/-- The reference reads only the `Type` reference and the name of the `Sub` line it follows. -/
theorem refInstance_nodes (reg : List Definition) (fuel : Nat) (path : List String)
    (x : Definition) (ns : List Node) (act : List (Option String)) :
    refInstance reg fuel path { x with nodes := ns } act = refInstance reg fuel path x act := by
  cases fuel <;> rfl

/-! ### Descents without cycles -/

/-- A descent in the instantiation graph: `P` holds the templates above `t`, each reaching
`t`, and nothing reachable from `t` lies on `P` or on a cycle. -/
structure Descent (reg : List Definition) (P : List String) (t : String) : Prop where
  above : ∀ p ∈ P, TransGen (SubEdge reg) p t
  below : ∀ w, ReflTransGen (SubEdge reg) t w → w ∉ P ∧ ¬ TransGen (SubEdge reg) w w

section Descent

variable {reg : List Definition} {P : List String} {t : String}

theorem Descent.start (h : ¬ CycleFrom reg t) : Descent reg [] t :=
  ⟨(fun _ hp => by cases hp), (fun w hw => ⟨List.not_mem_nil w, fun hc => h ⟨w, hw, hc⟩⟩)⟩

theorem Descent.not_mem (h : Descent reg P t) : t ∉ P := (h.below t .refl).1

theorem Descent.child (h : Descent reg P t) {v : String} (e : SubEdge reg t v) :
    Descent reg (P ++ [t]) v := by
  refine ⟨fun p hp => ?_, fun w hw => ?_⟩
  · rcases List.mem_append.mp hp with hp | hp
    · exact (h.above p hp).tail e
    · rw [List.mem_singleton.mp hp]; exact .single e
  · have hw' := h.below w (.head e hw)
    refine ⟨fun hm => ?_, hw'.2⟩
    rcases List.mem_append.mp hm with hm | hm
    · exact hw'.1 hm
    · rw [List.mem_singleton.mp hm] at hw
      exact (h.below t .refl).2 (TransGen.head' e hw)

theorem Descent.room (h : Descent reg P t) {T : Definition}
    (hT : checkerFindSubcircuit reg t = some T) : pathRoom reg (P ++ [t]) < pathRoom reg P :=
  pathRoom_lt h.not_mem (checkerFindSubcircuit_mem hT) (checkerFindSubcircuit_instance hT)

end Descent

/-- The template a `Sub` line of a body names is a successor of the body's template. -/
theorem subEdge_of_get {reg : List Definition} {T d T' : Definition}
    (hT : checkerFindSubcircuit reg T.instance = some T) (hd : d ∈ T.sub) (hs : d.type = "Sub")
    (hT' : checkerGetSubcircuit reg d = some T') : SubEdge reg T.instance T'.instance := by
  obtain ⟨v, hv, hfind⟩ := Option.bind_eq_some.mp hT'
  refine subEdge_of_mem hT hd ?_
  rw [checkerFindSubcircuit_instance hfind]
  simp [subReference, hs, hv]

theorem getSubcircuit_self {reg : List Definition} {d T : Definition}
    (h : checkerGetSubcircuit reg d = some T) : checkerFindSubcircuit reg T.instance = some T := by
  obtain ⟨v, -, hfind⟩ := Option.bind_eq_some.mp h
  rwa [checkerFindSubcircuit_instance hfind]

/-- Past the templates not yet on the path, the fuel of the reference no longer matters. -/
theorem refInstance_fuel {reg : List Definition} :
    ∀ {fuel fuel' : Nat} {P path : List String} {x T : Definition} {act : List (Option String)},
      checkerGetSubcircuit reg x = some T → Descent reg P T.instance →
      pathRoom reg P < fuel → pathRoom reg P < fuel' →
      refInstance reg fuel path x act = refInstance reg fuel' path x act
  | 0, _, _, _, _, _, _, _, _, h, _ => by omega
  | _, 0, _, _, _, _, _, _, _, _, h => by omega
  | fuel + 1, fuel' + 1, P, path, x, T, act, hT, hD, h, h' => by
    simp only [refInstance, hT]
    refine List.flatMap_congr fun e he => ?_
    unfold refLine
    split
    · rename_i hs
      cases hT' : checkerGetSubcircuit reg e with
      | none => cases fuel <;> cases fuel' <;> simp [refInstance, hT']
      | some T' =>
        have hroom := hD.room (getSubcircuit_self hT)
        have hD' := hD.child (subEdge_of_get (getSubcircuit_self hT) he hs hT')
        have hle : pathRoom reg (P ++ [T.instance]) ≤ pathRoom reg P :=
          pathRoom_anti (List.subset_append_left P [T.instance])
        exact refInstance_fuel hT' hD' (by omega) (by omega)
    · rfl

end QucsNetlist
