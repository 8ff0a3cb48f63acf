import QucsNetlist.Duplicates
import QucsNetlist.Flatten

/-! # The names of the flattened netlist (`check_netlist.cpp:1001-1011`, `1145-1155`)

A copy is named by joining the template name, the instance path and the line's name with `.`,
and an internal node likewise. The names are unique when the identifiers they join carry no
`.` themselves and the duplicate check accepted every list: the dotted names then split back
into the identifiers they join, so two copies with the same name come from the same line along
the same chain, and two node occurrences with the same name are on the same net of the
hierarchical circuit. An identifier with a `.` breaks both: a top-level line may be named like a
copy, and a top-level node like an internal node of an instance.
-/

namespace QucsNetlist

/-! ### Dotted names split back -/

/-- An identifier with no `.` in it. -/
def DotFree (s : String) : Prop := '.' ∉ s.data

instance : DecidablePred DotFree := fun s => inferInstanceAs (Decidable ('.' ∉ s.data))

/-- The identifiers a dotted name joins, as character lists. -/
def dotParts (s : String) : List (List Char) := s.data.splitOn '.'

theorem splitOn_dot {a : List Char} (ha : '.' ∉ a) (rest : List Char) :
    (a ++ '.' :: rest).splitOn '.' = a :: rest.splitOn '.' :=
  List.splitOnP_first (· == '.') a (fun c hc h => ha (beq_iff_eq.mp h ▸ hc)) '.' (by simp) rest

theorem dotParts_of_dotFree {s : String} (h : DotFree s) : dotParts s = [s.data] :=
  List.splitOnP_eq_single _ _ fun _ hc hp => h (beq_iff_eq.mp hp ▸ hc)

theorem intercalate_go_data (acc : String) : ∀ l : List String,
    (String.intercalate.go acc "." l).data = acc.data ++ (l.map fun a => '.' :: a.data).flatten
  | [] => by simp [String.intercalate.go]
  | a :: l => by
    rw [String.intercalate.go, intercalate_go_data]
    simp [List.append_assoc]

theorem splitOn_joined {n : String} (hn : DotFree n) : ∀ (p : String) (ps : List String),
    DotFree p → (∀ s ∈ ps, DotFree s) →
      (p.data ++ (ps.map fun a => '.' :: a.data).flatten ++ '.' :: n.data).splitOn '.' =
        (p :: ps ++ [n]).map String.data
  | p, [], hp, _ => by
    simp only [List.map_nil, List.flatten_nil, List.append_nil]
    rw [splitOn_dot hp, show n.data.splitOn '.' = [n.data] from dotParts_of_dotFree hn]
    rfl
  | p, q :: qs, hp, hqs => by
    have h := splitOn_joined hn q qs (hqs q (.head _)) (fun s hs => hqs s (.tail _ hs))
    simp only [List.map_cons, List.flatten_cons, List.append_assoc, List.cons_append] at h ⊢
    rw [splitOn_dot hp, h]

/-- A dotted name of identifiers without dots splits back into them. -/
theorem dotParts_refName {T n : String} {path : List String} (hT : DotFree T)
    (hpath : ∀ s ∈ path, DotFree s) (hne : path ≠ []) (hn : DotFree n) :
    dotParts (refName T path n) = (T :: path ++ [n]).map String.data := by
  obtain ⟨p, ps, rfl⟩ := List.exists_cons_of_ne_nil hne
  have h := splitOn_joined hn p ps (hpath p (.head _)) (fun s hs => hpath s (.tail _ hs))
  simp only [dotParts, refName, String.data_append, String.intercalate, intercalate_go_data,
    List.append_assoc, List.cons_append, List.nil_append] at h ⊢
  rw [splitOn_dot hT, h]
  rfl

/-! ### The nets of the hierarchical circuit -/

/-- A net of the hierarchical circuit: a node of the top-level list, the ground, or the
internal node `n` of template `T` in the instance at the end of `path`. -/
inductive Net where
  | top (n : String)
  | gnd
  | internal (T : String) (path : List String) (n : String)
  deriving DecidableEq, Repr

/-- The name the flattened netlist gives a net. -/
def Net.name : Net → String
  | .top n => n
  | .gnd => "gnd"
  | .internal T path n => refName T path n

/-- The net a node of the top-level list is on. -/
def topNet (n : Option String) : Option Net :=
  if n = some "gnd" then some .gnd else n.map .top

/-- The net node `n` of a line of template `T` is on, in the instance at the end of `path` whose
actual nodes are on the nets `act`: a formal port is on the net of the actual node at its
place, `gnd` on the ground, any other node is internal to the instance. -/
def semNode (T : Definition) (path : List String) (act : List (Option Net))
    (n : Option String) : Option Net :=
  match portOf T.nodes n with
  | some i => act.getD (i - 1) none
  | none => if n = some "gnd" then some .gnd else n.map (.internal T.instance path)

/-- A line of the flattened circuit with the nets its nodes are on; its node names are the
names of these nets. -/
structure SemLine where
  line : Flat
  nets : List (Option Net)
  named : line.nodes = nets.map (Option.map Net.name)

/-- Line `f` with its nodes on the nets `nets`. -/
def SemLine.ofNets (f : Flat) (nets : List (Option Net)) : SemLine :=
  ⟨{ f with nodes := nets.map (Option.map Net.name) }, nets, rfl⟩

@[simp] theorem SemLine.ofNets_line (f : Flat) (nets : List (Option Net)) :
    (SemLine.ofNets f nets).line = { f with nodes := nets.map (Option.map Net.name) } := rfl

/-- The line a line `e` of template `T` gives for the instance at the end of `path`. -/
def semLine (recurse : List String → Definition → List (Option Net) → List SemLine)
    (T : Definition) (path : List String) (act : List (Option Net)) (e : Definition) :
    List SemLine :=
  let nets := e.nodes.map fun n => semNode T path act n.node
  if e.type = "Sub" then recurse path e nets
  else [.ofNets { e.flat with «instance» := refName T.instance path e.instance } nets]

/-- The lines of the chains from the `Sub` line `x`, with their nets. -/
def semInstance (reg : List Definition) :
    Nat → List String → Definition → List (Option Net) → List SemLine
  | 0, _, _, _ => []
  | fuel + 1, path, x, act =>
    match checkerGetSubcircuit reg x with
    | none => []
    | some T => T.sub.flatMap (semLine (semInstance reg fuel) T (path ++ [x.instance]) act)

/-- The flattening of a top-level list with the net of every node. -/
def semFlatten (reg root : List Definition) : List SemLine :=
  root.flatMap fun d =>
    let nets := d.nodes.map fun n => topNet n.node
    if d.type = "Sub" then semInstance reg (reg.length + 1) [] d nets
    else [.ofNets d.flat nets]

theorem topNet_name (n : Option String) : (topNet n).map Net.name = n := by
  unfold topNet
  split
  · rename_i h; rw [h]; rfl
  · cases n <;> rfl

theorem semNode_name (T : Definition) (path : List String) (act : List (Option Net))
    (n : Option String) :
    (semNode T path act n).map Net.name = refNode T path (act.map (Option.map Net.name)) n := by
  unfold semNode refNode
  cases portOf T.nodes n with
  | some i =>
    simp only [List.getD_eq_getElem?_getD, List.getElem?_map]
    cases act[i - 1]? <;> rfl
  | none =>
    by_cases h : n = some "gnd"
    · simp only [h, if_true]; rfl
    · simp only [h, if_false]; cases n <;> rfl

/-- The reference names the nets of the semantic flattening. -/
theorem refInstance_semInstance (reg : List Definition) : ∀ (fuel : Nat) (path : List String)
    (x : Definition) (act : List (Option Net)),
    refInstance reg fuel path x (act.map (Option.map Net.name)) =
      (semInstance reg fuel path x act).map SemLine.line
  | 0, _, _, _ => rfl
  | fuel + 1, path, x, act => by
    simp only [refInstance, semInstance]
    rcases hT : checkerGetSubcircuit reg x with _ | T
    · rfl
    simp only [List.map_flatMap]
    refine List.flatMap_congr fun e _ => ?_
    have hn : e.nodes.map (fun n => refNode T (path ++ [x.instance])
          (act.map (Option.map Net.name)) n.node) =
        (e.nodes.map fun n => semNode T (path ++ [x.instance]) act n.node).map
          (Option.map Net.name) := by
      simp only [List.map_map, Function.comp_def, semNode_name]
    unfold refLine semLine
    split
    · rw [hn, refInstance_semInstance]
    · rw [hn]; rfl

theorem refFlatten_semFlatten (reg root : List Definition) :
    refFlatten reg root = (semFlatten reg root).map SemLine.line := by
  simp only [refFlatten, semFlatten, List.map_flatMap]
  refine List.flatMap_congr fun d _ => ?_
  have hn : d.nodes.map (·.node) =
      (d.nodes.map fun n => topNet n.node).map (Option.map Net.name) := by
    simp only [List.map_map, Function.comp_def, topNet_name]
  split
  · rw [hn, refInstance_semInstance]
  · rw [List.map_singleton, SemLine.ofNets_line, ← hn]; rfl

/-! ### Names without collisions -/

/-- The names a line gives the flattening, its instance name and its node names, carry no
dot. -/
def Named (d : Definition) : Prop :=
  DotFree d.instance ∧ ∀ n ∈ d.nodes, ∀ s ∈ n.node, DotFree s

/-- The identifiers the name of a net joins. -/
def Net.parts : Net → List String
  | .top n => [n]
  | .gnd => ["gnd"]
  | .internal T path n => T :: path ++ [n]

/-- A net the flattening of lines with dot-free names can produce. -/
def Net.Wf : Net → Prop
  | .top n => DotFree n ∧ n ≠ "gnd"
  | .gnd => True
  | .internal T path n => DotFree T ∧ (∀ s ∈ path, DotFree s) ∧ path ≠ [] ∧ DotFree n

theorem data_injective : Function.Injective String.data := fun a b h => by
  cases a; cases b; cases h; rfl

theorem dotParts_name {w : Net} (hw : w.Wf) : dotParts w.name = w.parts.map String.data := by
  cases w with
  | top n => exact dotParts_of_dotFree hw.1
  | gnd => exact dotParts_of_dotFree (by decide)
  | internal T path n => exact dotParts_refName hw.1 hw.2.1 hw.2.2.1 hw.2.2.2

theorem Net.parts_injective {u v : Net} (hu : u.Wf) (hv : v.Wf) (h : u.parts = v.parts) :
    u = v := by
  cases u <;> cases v <;> simp_all [Net.parts, Net.Wf]
  exact ⟨(List.append_inj' h.2 rfl).1, List.singleton_inj.mp (List.append_inj' h.2 rfl).2⟩

/-- Nets the flattening of dot-free names produces have distinct names. -/
theorem Net.name_injective {u v : Net} (hu : u.Wf) (hv : v.Wf) (h : u.name = v.name) : u = v :=
  Net.parts_injective hu hv <| (List.map_injective_iff.mpr data_injective) <|
    (dotParts_name hu).symm.trans ((congrArg dotParts h).trans (dotParts_name hv))

theorem topNet_wf {n : Option String} (hn : ∀ s ∈ n, DotFree s) : ∀ w ∈ topNet n, w.Wf := by
  intro w hw
  unfold topNet at hw
  split at hw
  · cases hw; trivial
  · rename_i hg
    cases n with
    | none => cases hw
    | some s =>
      cases hw
      exact ⟨hn s rfl, fun h => hg (by rw [h])⟩

theorem semNode_wf {T : Definition} {P : List String} {act : List (Option Net)}
    {n : Option String} (hT : DotFree T.instance) (hP : ∀ s ∈ P, DotFree s) (hne : P ≠ [])
    (hact : ∀ u ∈ act, ∀ w ∈ u, Net.Wf w) (hn : ∀ s ∈ n, DotFree s) :
    ∀ w ∈ semNode T P act n, w.Wf := by
  intro w hw
  unfold semNode at hw
  split at hw
  · rename_i i _
    rw [List.getD_eq_getElem?_getD] at hw
    cases hu : act[i - 1]? with
    | none => rw [hu] at hw; cases hw
    | some u => rw [hu] at hw; exact hact u (List.getElem?_mem hu) w hw
  · split at hw
    · cases hw; trivial
    · cases n with
      | none => cases hw
      | some s => cases hw; exact ⟨hT, hP, hne, hn s rfl⟩

theorem dotFree_path {path : List String} {x : String} (hpath : ∀ s ∈ path, DotFree s)
    (hx : DotFree x) : ∀ s ∈ path ++ [x], DotFree s := by
  intro s hs
  rcases List.mem_append.mp hs with hs | hs
  · exact hpath s hs
  · rw [List.mem_singleton.mp hs]; exact hx

/-- Copy `f` was made from line `e` of a body at the end of the instance path `P`: its name
joins a template name, `P`, the name of `e` and, when `e` is a `Sub` line, the rest of the
chain below it. -/
def CopyOf (P : List String) (e : Definition) (f : Flat) : Prop :=
  ∃ Th tail, dotParts f.instance = (Th :: P ++ e.instance :: tail).map String.data ∧
    (e.type = "Sub" ↔ tail ≠ []) ∧ (e.type ≠ "Sub" → f.type = e.type)

/-- Two copies with the same type and name come from lines with the same key. -/
theorem CopyOf.key_eq {P : List String} {e e' : Definition} {f f' : Flat} (h : CopyOf P e f)
    (h' : CopyOf P e' f') (hf : f.type = f'.type)
    (hp : dotParts f.instance = dotParts f'.instance) : e.key = e'.key := by
  obtain ⟨Th, tail, hd, hs, ht⟩ := h
  obtain ⟨Th', tail', hd', hs', ht'⟩ := h'
  have heq := (List.map_injective_iff.mpr data_injective) (hd.symm.trans (hp.trans hd'))
  simp only [List.cons_append, List.cons.injEq, List.append_cancel_left_eq] at heq
  obtain ⟨-, hi, htl⟩ := heq
  have htype : e.type = e'.type := by
    by_cases hsub : e.type = "Sub"
    · rw [hsub, eq_comm, hs', ← htl, ← hs]; exact hsub
    · have : e'.type ≠ "Sub" := fun h => hsub (hs.mpr (htl ▸ hs'.mp h))
      rw [← ht hsub, ← ht' this, hf]
  simp only [Definition.key, htype, hi]

section Registry

variable {reg : List Definition}
  (hreg : ∀ T ∈ reg, DotFree T.instance ∧ (∀ e ∈ T.sub, Named e) ∧
    (T.sub.map Definition.key).Nodup)
include hreg

theorem semInstance_wf : ∀ (fuel : Nat) (path : List String) (x : Definition)
    (act : List (Option Net)), (∀ s ∈ path, DotFree s) → DotFree x.instance →
      (∀ u ∈ act, ∀ w ∈ u, Net.Wf w) → ∀ l ∈ semInstance reg fuel path x act, ∀ u ∈ l.nets,
        ∀ w ∈ u, w.Wf
  | 0, _, _, _, _, _, _, l, hl => absurd hl (List.not_mem_nil l)
  | fuel + 1, path, x, act, hpath, hx, hact, l, hl => by
    simp only [semInstance] at hl
    rcases hT : checkerGetSubcircuit reg x with _ | T
    · simp only [hT] at hl; exact absurd hl (List.not_mem_nil l)
    simp only [hT, List.mem_flatMap] at hl
    obtain ⟨e, he, hl⟩ := hl
    obtain ⟨hTn, hbody, -⟩ := hreg T (checkerFindSubcircuit_mem (getSubcircuit_self hT))
    have hP := dotFree_path hpath hx
    have hnets : ∀ u ∈ e.nodes.map (fun n => semNode T (path ++ [x.instance]) act n.node),
        ∀ w ∈ u, w.Wf := by
      simp only [List.mem_map]
      rintro u ⟨n, hn, rfl⟩
      exact semNode_wf hTn hP (by simp) hact ((hbody e he).2 n hn)
    unfold semLine at hl
    split at hl
    · exact semInstance_wf fuel _ e _ hP (hbody e he).1 hnets l hl
    · rw [List.mem_singleton.mp hl]; exact hnets

/-- The copies of the chains from `x` are named below `x`, and no two have the same type and
name. -/
theorem refInstance_names : ∀ (fuel : Nat) (path : List String) (x : Definition)
    (act : List (Option String)), (∀ s ∈ path, DotFree s) → DotFree x.instance →
      (∀ f ∈ refInstance reg fuel path x act, ∃ Th tail, tail ≠ [] ∧
        dotParts f.instance = (Th :: (path ++ [x.instance]) ++ tail).map String.data) ∧
      ((refInstance reg fuel path x act).map fun f => (f.type, dotParts f.instance)).Nodup
  | 0, _, _, _, _, _ => ⟨fun _ h => absurd h (List.not_mem_nil _), List.nodup_nil⟩
  | fuel + 1, path, x, act, hpath, hx => by
    simp only [refInstance]
    rcases hT : checkerGetSubcircuit reg x with _ | T
    · exact ⟨fun _ h => absurd h (List.not_mem_nil _), List.nodup_nil⟩
    obtain ⟨hTn, hbody, hkeys⟩ := hreg T (checkerFindSubcircuit_mem (getSubcircuit_self hT))
    have hP := dotFree_path hpath hx
    have hline : ∀ e ∈ T.sub,
        (∀ f ∈ refLine (refInstance reg fuel) T (path ++ [x.instance]) act e,
          CopyOf (path ++ [x.instance]) e f) ∧
        ((refLine (refInstance reg fuel) T (path ++ [x.instance]) act e).map
          fun f => (f.type, dotParts f.instance)).Nodup := by
      intro e he
      unfold refLine
      split
      · rename_i hs
        obtain ⟨ih1, ih2⟩ := refInstance_names fuel _ e _ hP (hbody e he).1
        refine ⟨fun f hf => ?_, ih2⟩
        obtain ⟨Th, tail, hne, hd⟩ := ih1 f hf
        exact ⟨Th, tail, by simpa using hd, ⟨fun _ => hne, fun _ => hs⟩, fun h => absurd hs h⟩
      · rename_i hs
        refine ⟨fun f hf => ?_, List.nodup_singleton _⟩
        rw [List.mem_singleton.mp hf]
        refine ⟨T.instance, [], ?_, ⟨fun h => absurd h hs, fun h => absurd rfl h⟩, fun _ => rfl⟩
        rw [dotParts_refName hTn hP (by simp) (hbody e he).1]
    constructor
    · intro f hf
      obtain ⟨e, he, hf⟩ := List.mem_flatMap.mp hf
      obtain ⟨Th, tail, hd, -, -⟩ := (hline e he).1 f hf
      exact ⟨Th, e.instance :: tail, List.cons_ne_nil _ _, by simpa using hd⟩
    · rw [List.map_flatMap, List.nodup_flatMap]
      refine ⟨fun e he => (hline e he).2, ?_⟩
      refine (List.pairwise_map.mp hkeys).imp_of_mem fun he he' hne k hk hk' => ?_
      obtain ⟨f, hf, rfl⟩ := List.mem_map.mp hk
      obtain ⟨f', hf', hff⟩ := List.mem_map.mp hk'
      simp only [Prod.mk.injEq] at hff
      exact hne (((hline _ he).1 f hf).key_eq ((hline _ he').1 f' hf') hff.1.symm hff.2.symm)

end Registry

/-- What the flattening needs of the lists it is given for its names to be unique: every line
of the top level and of the bodies, and every template, is named without dots, and the lines
of the top level, and of each body, have pairwise distinct keys. -/
structure Distinct (root reg : List Definition) : Prop where
  top : ∀ d ∈ root, Named d
  topKeys : (root.map Definition.key).Nodup
  templates : ∀ T ∈ reg, DotFree T.instance
  body : ∀ T ∈ reg, ∀ e ∈ T.sub, Named e
  bodyKeys : ∀ T ∈ reg, (T.sub.map Definition.key).Nodup

/-- The top-level line `d` gives the copy `f`: `d` itself when it is not a `Sub` line, and
otherwise a copy named below it. -/
def TopCopyOf (d : Definition) (f : Flat) : Prop :=
  (d.type = "Sub" → ∃ Th tail, tail ≠ [] ∧
    dotParts f.instance = (Th :: d.instance :: tail).map String.data) ∧
  (d.type ≠ "Sub" → dotParts f.instance = [d.instance.data] ∧ f.type = d.type)

theorem TopCopyOf.key_eq {d d' : Definition} {f f' : Flat} (h : TopCopyOf d f)
    (h' : TopCopyOf d' f') (hf : f.type = f'.type)
    (hp : dotParts f.instance = dotParts f'.instance) : d.key = d'.key := by
  have hinj := List.map_injective_iff.mpr data_injective
  by_cases hs : d.type = "Sub" <;> by_cases hs' : d'.type = "Sub"
  · obtain ⟨Th, tail, -, hd⟩ := h.1 hs
    obtain ⟨Th', tail', -, hd'⟩ := h'.1 hs'
    have := hinj (hd.symm.trans (hp.trans hd'))
    simp only [List.cons.injEq] at this
    simp only [Definition.key, hs, hs', this.2.1]
  · obtain ⟨Th, tail, hne, hd⟩ := h.1 hs
    have := congrArg List.length (hd.symm.trans (hp.trans (h'.2 hs').1))
    simp only [List.length_map, List.length_cons, List.length_nil] at this
    omega
  · obtain ⟨Th', tail', hne, hd'⟩ := h'.1 hs'
    have := congrArg List.length ((h.2 hs).1.symm.trans (hp.trans hd'))
    simp only [List.length_map, List.length_cons, List.length_nil] at this
    omega
  · have := List.singleton_inj.mp ((h.2 hs).1.symm.trans (hp.trans (h'.2 hs').1))
    simp only [Definition.key, ← (h.2 hs).2, ← (h'.2 hs').2, hf, data_injective this]

section Distinct

variable {root reg : List Definition} (hD : Distinct root reg)
include hD

theorem Distinct.registry : ∀ T ∈ reg, DotFree T.instance ∧ (∀ e ∈ T.sub, Named e) ∧
    (T.sub.map Definition.key).Nodup :=
  fun T hT => ⟨hD.templates T hT, hD.body T hT, hD.bodyKeys T hT⟩

/-- Every net of the flattening is one the dot-free names can produce. -/
theorem Distinct.nets_wf : ∀ l ∈ semFlatten reg root, ∀ u ∈ l.nets, ∀ w ∈ u, w.Wf := by
  intro l hl
  obtain ⟨d, hd, hl⟩ := List.mem_flatMap.mp hl
  have hnets : ∀ u ∈ d.nodes.map (fun n => topNet n.node), ∀ w ∈ u, w.Wf := by
    simp only [List.mem_map]
    rintro u ⟨n, hn, rfl⟩
    exact topNet_wf ((hD.top d hd).2 n hn)
  simp only at hl
  split at hl
  · exact semInstance_wf hD.registry _ [] d _ (fun _ h => absurd h (List.not_mem_nil _))
      (hD.top d hd).1 hnets l hl
  · rw [List.mem_singleton.mp hl]; exact hnets

/-- Two node occurrences of the flattening have the same name exactly when they are on the same
net. -/
theorem Distinct.names_apart : ∀ l ∈ semFlatten reg root, ∀ l' ∈ semFlatten reg root,
    ∀ u ∈ l.nets, ∀ u' ∈ l'.nets, u.map Net.name = u'.map Net.name → u = u' := by
  intro l hl l' hl' u hu u' hu' h
  cases u with
  | none => cases u' with
    | none => rfl
    | some _ => cases h
  | some w => cases u' with
    | none => cases h
    | some w' =>
      exact congrArg some (Net.name_injective (hD.nets_wf l hl _ hu w rfl)
        (hD.nets_wf l' hl' _ hu' w' rfl) (Option.some.inj h))

/-- No two lines of the flattening have the same type and name. -/
theorem Distinct.refFlatten_nodup :
    ((refFlatten reg root).map fun f => (f.type, dotParts f.instance)).Nodup := by
  have hline : ∀ d ∈ root,
      (∀ f ∈ (if d.type = "Sub" then refInstance reg (reg.length + 1) [] d (d.nodes.map (·.node))
        else [d.flat]), TopCopyOf d f) ∧
      ((if d.type = "Sub" then refInstance reg (reg.length + 1) [] d (d.nodes.map (·.node))
        else [d.flat]).map fun f => (f.type, dotParts f.instance)).Nodup := by
    intro d hd
    split
    · rename_i hs
      obtain ⟨h1, h2⟩ := refInstance_names hD.registry _ [] d _
        (fun _ h => absurd h (List.not_mem_nil _)) (hD.top d hd).1
      exact ⟨fun f hf => ⟨fun _ => by simpa using h1 f hf, fun h => absurd hs h⟩, h2⟩
    · rename_i hs
      refine ⟨fun f hf => ?_, List.nodup_singleton _⟩
      rw [List.mem_singleton.mp hf]
      exact ⟨fun h => absurd h hs, fun _ => ⟨dotParts_of_dotFree (hD.top d hd).1, rfl⟩⟩
  rw [refFlatten, List.map_flatMap, List.nodup_flatMap]
  refine ⟨fun d hd => (hline d hd).2, ?_⟩
  refine (List.pairwise_map.mp hD.topKeys).imp_of_mem fun hd hd' hne k hk hk' => ?_
  obtain ⟨f, hf, rfl⟩ := List.mem_map.mp hk
  obtain ⟨f', hf', hff⟩ := List.mem_map.mp hk'
  simp only [Prod.mk.injEq] at hff
  exact hne (((hline _ hd).1 f hf).key_eq ((hline _ hd').1 f' hf') hff.1.symm hff.2.symm)

end Distinct

/-! ### After the checks of `netlist_checker` -/

theorem named_of_shape {d d' : Definition} (h : d.shape = d'.shape) (hd : Named d') :
    Named d := by
  obtain ⟨-, hi, -, hn, -⟩ := shape_eq_iff.mp h
  unfold Named; rw [hi, hn]; exact hd

/-- The checks of a run without error, on unmarked input whose names carry no dot, hand the
expansion lists whose flattening names every line and every net apart. -/
theorem netlistCheckerValidate_distinct {available : List Define} {fuel : Nat}
    {G : List Definition} {r : Report} {g' : Globals}
    (h : netlistCheckerValidate available fuel { definitionRoot := G } = .ok (r, g'))
    (h0 : r.errors = 0) (hd : EveryLines (·.duplicate = false) G) (hn : EveryLines Named G) :
    Distinct g'.definitionRoot g'.subcircuitRoot := by
  unfold netlistCheckerValidate at h
  obtain ⟨⟨r0, stored, root, reg⟩, hl, h⟩ := bind_eq_ok.mp h
  obtain ⟨actions, ha, h⟩ := bind_eq_ok.mp h
  cases h
  simp only [Report.append_errors] at h0
  obtain ⟨hkeys, hbkeys⟩ := checkLists_keys hl (by omega) hd
    (fun _ h => absurd h (List.not_mem_nil _))
  obtain ⟨hroot, hreg⟩ := checkLists_skeletons hl
  obtain ⟨htop, hbod⟩ := checkerBuildSubcircuits_every (P := Named) (fun _ _ h => h) G [] hn
    (fun _ h => absurd h (List.not_mem_nil _))
  have hacts := skeletons_checkerValidateActions ha
  refine ⟨fun d hd => ?_, ?_, fun T hT => ?_, fun T hT e he => ?_, hbkeys⟩
  · obtain ⟨d', hd', hdd⟩ := mem_of_skeletons (hacts.trans hroot) hd
    exact named_of_shape (congrArg Prod.fst hdd).symm (htop d' hd')
  · rw [keys_of_shapes (shapes_of_skeletons hacts)]; exact hkeys
  · obtain ⟨T', hT', hTT⟩ := mem_of_skeletons hreg hT
    exact (shape_eq_iff.mp (congrArg Prod.fst hTT)).2.1 ▸ (hbod T' hT').1.1
  · obtain ⟨T', hT', hTT⟩ := mem_of_skeletons hreg hT
    obtain ⟨e', he', hee⟩ := mem_of_shapes (congrArg Prod.snd hTT).symm he
    exact named_of_shape hee.symm ((hbod T' hT').2 e' he')

/-! ### The flattened netlist of an accepted input -/

/-- For input whose lines are unmarked, whose nodes are as the parser makes them and whose
names carry no dot, a run whose checks count no error expands, given enough fuel, to a list
whose lines have pairwise distinct types and names, and which is, up to order, the flattening
with the net of every node; nets have distinct names. -/
theorem accepted_names_unique {available : List Define} {fuel : Nat} {G : List Definition}
    {r : Report} {g' : Globals}
    (h : netlistCheckerValidate available fuel { definitionRoot := G } = .ok (r, g'))
    (h0 : r.errors = 0) (hp : ParsedLines G) (hd : EveryLines (·.duplicate = false) G)
    (hn : EveryLines Named G) :
    ∃ N, ∀ n, N ≤ n → ∃ X,
      checkerExpandSubcircuits n g'.subcircuitRoot g'.definitionRoot =
        .ok (g'.subcircuitRoot, X) ∧
      (X.map Definition.key).Nodup ∧
      (X.map Definition.flat).Perm
        ((semFlatten g'.subcircuitRoot g'.definitionRoot).map SemLine.line) ∧
      ∀ l ∈ semFlatten g'.subcircuitRoot g'.definitionRoot,
        ∀ l' ∈ semFlatten g'.subcircuitRoot g'.definitionRoot,
          ∀ u ∈ l.nets, ∀ u' ∈ l'.nets, u.map Net.name = u'.map Net.name → u = u' := by
  have hD := netlistCheckerValidate_distinct h h0 hd hn
  refine ⟨expandBound g'.subcircuitRoot g'.definitionRoot + 1, fun n hn' => ?_⟩
  obtain ⟨X, hX, hperm, -, -⟩ := netlistCheckerValidate_flatten h h0 hp
    (fun _ h => absurd h (List.not_mem_nil _)) n (by omega)
  have hkeys := (hperm.map fun f => (f.type, dotParts f.instance)).nodup_iff.mpr
    hD.refFlatten_nodup
  rw [List.map_map] at hkeys
  refine ⟨X, hX, List.Nodup.of_map (fun k => (k.1, dotParts k.2)) ?_, ?_, hD.names_apart⟩
  · rw [List.map_map]; exact hkeys
  · rwa [← refFlatten_semFlatten]

theorem nestedNetlist_unmarked : EveryLines (·.duplicate = false) nestedNetlist := by
  simp [nestedNetlist, EveryLines, EveryLine]

theorem nestedNetlist_named : EveryLines Named nestedNetlist := by
  simp [nestedNetlist, EveryLines, EveryLine, Named, namedNode]
  decide

theorem nested_names_unique :
    ∃ r g', netlistCheckerValidate sampleCatalog 5 { definitionRoot := nestedNetlist } =
        .ok (r, g') ∧ r.errors = 0 ∧ ∃ N, ∀ n, N ≤ n → ∃ X,
      checkerExpandSubcircuits n g'.subcircuitRoot g'.definitionRoot =
        .ok (g'.subcircuitRoot, X) ∧
      (X.map Definition.key).Nodup ∧
      (X.map Definition.flat).Perm
        ((semFlatten g'.subcircuitRoot g'.definitionRoot).map SemLine.line) ∧
      ∀ l ∈ semFlatten g'.subcircuitRoot g'.definitionRoot,
        ∀ l' ∈ semFlatten g'.subcircuitRoot g'.definitionRoot,
          ∀ u ∈ l.nets, ∀ u' ∈ l'.nets, u.map Net.name = u'.map Net.name → u = u' := by
  obtain ⟨r, g', h, h0⟩ : ∃ r g', netlistCheckerValidate sampleCatalog 5
      { definitionRoot := nestedNetlist } = .ok (r, g') ∧ r.errors = 0 := ⟨_, _, rfl, rfl⟩
  exact ⟨r, g', h, h0, accepted_names_unique h h0 nestedNetlist_parsed nestedNetlist_unmarked
    nestedNetlist_named⟩

/-- A template instantiated as `x` next to a top-level resistor named like the copy of the
template's resistor, on a node named like the template's internal node. -/
def dottedNetlist : List Definition :=
  [{ type := "Def", «instance» := "T", nodes := [namedNode "a"],
     sub := [{ type := "R", «instance» := "R1", nodes := [namedNode "a", namedNode "b"],
               pairs := [numberPair "R" 1], sub := [] }] },
   { type := "Sub", «instance» := "x", nodes := [namedNode "n1"],
     pairs := [identPair "Type" "T"], sub := [] },
   { type := "R", «instance» := "T.x.R1", nodes := [namedNode "T.x.b", namedNode "gnd"],
     pairs := [numberPair "R" 1], sub := [] },
   { type := "DC", «instance» := "DC1", action := true, sub := [] }]

/-- The netlist is accepted, and its flattened list has two resistors `T.x.R1`, joined by the
node `T.x.b` although one is the internal node of the instance and the other a top-level
node. -/
theorem dotted_names_collide :
    (netlistChecker sampleCatalog 4 { definitionRoot := dottedNetlist }).map
        (fun x => (x.1, x.2.1.definitionRoot.map fun d => (d.type, d.instance, d.nodes.map (·.node)))) =
      .ok (0, [("R", "T.x.R1", [some "n1", some "T.x.b"]), ("R", "T.x.R1", [some "T.x.b", some "gnd"]),
        ("DC", "DC1", [])]) := rfl

end QucsNetlist
