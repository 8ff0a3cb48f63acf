import QucsNetlist.Expansion

/-! # The expansion of an accepted netlist (`check_netlist.cpp:1385-1421`, `1614-1618`)

`netlist_checker` expands the subcircuits only when its checks counted no error. The checks
then guarantee what every call of `checker_copy_subcircuits` needs (`Expandable`, and a
`CallAt` for each top-level `Sub` line), and the nodes keep the form the parser gave them. The
loop of `checker_expand_subcircuits` puts the copies of each `Sub` line at the head of the list
and rescans the lines before it, so the result is the reference flattening with the copies of
the last `Sub` line first, every copy set in the reverse order of the reference, and the other
lines behind them in their order.
-/

namespace QucsNetlist

/-! ### Nodes as the parser leaves them -/

mutual
/-- Every node of a line, and of its body at any depth, is named and untranslated. -/
def ParsedLine : Definition → Prop
  | d@{ sub := s, .. } => (∀ n ∈ d.nodes, n.Parsed) ∧ ParsedLines s

/-- Every node of every line of a list, at any depth, is named and untranslated. -/
def ParsedLines : List Definition → Prop
  | [] => True
  | d :: ds => ParsedLine d ∧ ParsedLines ds
end

/-- Every node of every body line of a registry is named and untranslated. -/
def BodiesParsed (reg : List Definition) : Prop :=
  ∀ T ∈ reg, ∀ e ∈ T.sub, ∀ n ∈ e.nodes, n.Parsed

mutual
theorem buildSubcircuit_parsed : ∀ (d : Definition) (reg : List Definition),
    ParsedLine d → BodiesParsed reg → BodiesParsed (buildSubcircuit d reg)
  | d@{ sub := s, .. }, reg, ⟨_, hs⟩, hreg => by
    have ih := checkerBuildSubcircuits_parsed s reg hs hreg
    intro T hT
    rcases List.mem_cons.mp hT with rfl | hT
    · exact ih.1
    · exact ih.2 T hT

theorem checkerBuildSubcircuits_parsed : ∀ (l reg : List Definition),
    ParsedLines l → BodiesParsed reg →
      (∀ d ∈ (checkerBuildSubcircuits l reg).1, ∀ n ∈ d.nodes, n.Parsed) ∧
        BodiesParsed (checkerBuildSubcircuits l reg).2
  | [], _, _, hreg => ⟨fun _ h => absurd h (List.not_mem_nil _), hreg⟩
  | d :: ds, reg, ⟨hd, hds⟩, hreg => by
    unfold checkerBuildSubcircuits
    split
    · exact checkerBuildSubcircuits_parsed ds _ hds (buildSubcircuit_parsed d reg hd hreg)
    · have ih := checkerBuildSubcircuits_parsed ds reg hds hreg
      refine ⟨fun d' hd' => ?_, ih.2⟩
      rcases List.mem_cons.mp hd' with rfl | hd'
      · cases d'; exact hd.1
      · exact ih.1 d' hd'
end

/-- The line checks keep the nodes of every line: parsed input gives parsed lists. -/
theorem checkLists_parsed {available : List Define} {fuel : Nat} {L R : List Definition}
    {r : Report} {stored : Option Nat} {root reg : List Definition}
    (h : checkLists available fuel L R = .ok (r, stored, root, reg)) (hp : ParsedLines L)
    (hq : BodiesParsed R) : (∀ d ∈ root, ∀ n ∈ d.nodes, n.Parsed) ∧ BodiesParsed reg := by
  obtain ⟨hroot, hreg⟩ := checkLists_skeletons h
  obtain ⟨htop, hbod⟩ := checkerBuildSubcircuits_parsed _ _ hp hq
  constructor
  · intro d hd n hn
    obtain ⟨d2, hd2, hdd2⟩ := mem_of_skeletons hroot hd
    exact htop d2 hd2 n ((shape_eq_iff.mp (congrArg Prod.fst hdd2)).2.2.2.1 ▸ hn)
  · intro T hT e he n hn
    obtain ⟨T2, hT2, hTT⟩ := mem_of_skeletons hreg hT
    obtain ⟨e2, he2, hee⟩ := mem_of_shapes (congrArg Prod.snd hTT).symm he
    exact hbod T2 hT2 e2 he2 n ((shape_eq_iff.mp hee).2.2.2.1 ▸ hn)

/-- The checks of `netlist_checker` keep the nodes of every line: parsed input gives parsed
lists to the expansion. -/
theorem netlistCheckerValidate_parsed {available : List Define} {fuel : Nat} {g g' : Globals}
    {r : Report} (h : netlistCheckerValidate available fuel g = .ok (r, g'))
    (hp : ParsedLines g.definitionRoot) (hq : BodiesParsed g.subcircuitRoot) :
    (∀ d ∈ g'.definitionRoot, ∀ n ∈ d.nodes, n.Parsed) ∧ BodiesParsed g'.subcircuitRoot := by
  unfold netlistCheckerValidate at h
  obtain ⟨⟨r0, stored, root, reg⟩, hl, h⟩ := bind_eq_ok.mp h
  obtain ⟨actions, ha, h⟩ := bind_eq_ok.mp h
  cases h
  obtain ⟨htop, hbod⟩ := checkLists_parsed hl hp hq
  refine ⟨fun d hd n hn => ?_, hbod⟩
  obtain ⟨d1, hd1, hdd1⟩ := mem_of_skeletons (skeletons_checkerValidateActions ha) hd
  exact htop d1 hd1 n ((shape_eq_iff.mp (congrArg Prod.fst hdd1)).2.2.2.1 ▸ hn)

/-! ### The top-level calls -/

/-- At the outermost level no blank is left: the copies are the reference, reversed. -/
theorem Renders.outer {T : Definition} {C : List Definition}
    {F : (Nat → Option String × Nat) → List Flat} (h : Renders [] T C F)
    (ρ : Nat → Option String × Nat) : C.map Definition.flat = (F ρ).reverse := by
  have hid : C.map (fillCopy ρ) = C := by
    conv_rhs => rw [← List.map_id C]
    refine List.map_congr_left fun c hc => fillCopy_of_isSome fun n hn => ?_
    cases hn' : n.node with
    | none => exact absurd rfl (h.blank c hc n hn hn').1
    | some s => rfl
  rw [← h.flat ρ, hid]

/-- A top-level `Sub` line the checks accepted expands, with enough fuel, into the reverse of
its reference copies, and leaves the registry as it was. -/
theorem topCopy_spec {R : List Definition} (hR : Expandable R) {d T : Definition}
    (hget : checkerGetSubcircuit R d = some T) (hlen : d.nodes.length = T.nodes.length)
    (hacy : ¬ CycleFrom R T.instance) (hd : ∀ n ∈ d.nodes, n.node.isSome) {fuel : Nat}
    (hfuel : R.length < fuel) :
    ∃ t C ins, subcircuitIndex R d = some t ∧ checkerCopySubcircuits fuel R t d none = .ok (R, C, ins) ∧
      C.map Definition.flat = (refInstance R (R.length + 1) [] d (d.nodes.map (·.node))).reverse := by
  obtain ⟨t, hidx, ht⟩ := Option.bind_eq_some.mp ((checkerGetSubcircuit_index R d).symm.trans hget)
  have hc : CallAt R R [] t T d := ⟨RegAt.start, ht, hget, Descent.start hacy, hd, hlen.ge⟩
  have hroom : pathRoom R [] ≤ R.length := pathRoom_le
  obtain ⟨C, ins, hcall, hC⟩ := checkerCopySubcircuits_spec hR fuel none hc (by omega)
  have hf : refInstance R fuel [] d (d.nodes.map (·.node)) =
      refInstance R (R.length + 1) [] d (d.nodes.map (·.node)) :=
    refInstance_fuel hget (Descent.start hacy) (by omega) (by omega)
  exact ⟨t, C, ins, hidx, hcall, (hC.outer fun _ => (none, 0)).trans (congrArg List.reverse hf)⟩

/-! ### The loop of `checker_expand_subcircuits` -/

section Loop

variable {fuel : Nat} {reg : List Definition} {copies : Definition → List Definition}

/-- The loop with the copies of every `Sub` line still to come given by `copies`: they end up
at the head, those of the last line first, in front of the lines before the cursor and the
other lines after it. `M` bounds the lines the loop ever holds, and the loop needs a step per
line after the cursor and `M + 1` per `Sub` line. -/
theorem expandLoop_spec (M : Nat) :
    ∀ (steps : Nat) (prev next : List Definition), (∀ d ∈ prev, d.type ≠ "Sub") →
      (∀ d ∈ next, d.type = "Sub" → ∃ t ins, subcircuitIndex reg d = some t ∧
        checkerCopySubcircuits fuel reg t d none = .ok (reg, copies d, ins) ∧
        ∀ c ∈ copies d, c.type ≠ "Sub") →
      prev.length + next.length + ((next.filter (·.type = "Sub")).flatMap copies).length ≤ M →
      (next.filter (·.type = "Sub")).length * (M + 1) + next.length < steps →
      expandLoop fuel steps reg prev next = .ok (reg,
        (next.filter (·.type = "Sub")).reverse.flatMap copies ++ prev.reverse ++
          next.filter (·.type ≠ "Sub"))
  | 0, _, _, _, _, _, hs => by omega
  | steps + 1, prev, [], _, _, _, _ => by simp [expandLoop]
  | steps + 1, prev, d :: rest, hprev, hcopy, hM, hs => by
    have hrest : ∀ d ∈ rest, _ := fun d hd => hcopy d (List.mem_cons_of_mem _ hd)
    by_cases hd : d.type = "Sub"
    · obtain ⟨t, ins, hidx, hcall, hsub⟩ := hcopy d (List.mem_cons_self d rest) hd
      have hf : (d :: rest).filter (·.type = "Sub") = d :: rest.filter (·.type = "Sub") :=
        List.filter_cons_of_pos (decide_eq_true hd)
      have hg : (d :: rest).filter (·.type ≠ "Sub") = rest.filter (·.type ≠ "Sub") :=
        List.filter_cons_of_neg (by simpa using hd)
      have hnil : prev.reverse.filter (·.type = "Sub") = [] :=
        List.filter_eq_nil_iff.mpr fun c hc => by simpa using hprev c (List.mem_reverse.mp hc)
      have hall : prev.reverse.filter (·.type ≠ "Sub") = prev.reverse :=
        List.filter_eq_self.mpr fun c hc => by simpa using hprev c (List.mem_reverse.mp hc)
      have hmul : ((rest.filter (·.type = "Sub")).length + 1) * (M + 1) =
          (rest.filter (·.type = "Sub")).length * (M + 1) + (M + 1) := Nat.succ_mul _ _
      have hlen := List.length_reverse prev
      rw [hf] at hM hs
      rw [hf, hg, List.reverse_cons, List.flatMap_append, List.flatMap_singleton]
      simp only [List.length_cons, List.flatMap_cons, List.length_append] at hM hs
      simp only [expandLoop, hd, if_true, hidx, hcall, ok_bind]
      by_cases hemp : copies d = []
      · rw [hemp] at hM ⊢
        rw [show ([] : List Definition).isEmpty = true from rfl, if_pos rfl,
          expandLoop_spec M steps prev rest hprev hrest
            (by simp only [List.length_nil] at hM; omega) (by omega),
          List.append_nil]
      · rw [if_neg (by simpa using hemp), expandLoop_spec M steps (copies d).reverse
          (prev.reverse ++ rest) (fun c hc => hsub c (List.mem_reverse.mp hc))
          (fun c hc hcs => (List.mem_append.mp hc).elim
            (fun hc => absurd hcs (hprev c (List.mem_reverse.mp hc))) (fun hc => hrest c hc hcs))
          (by rw [List.filter_append, hnil, List.nil_append, List.length_reverse,
            List.length_append, hlen]; omega)
          (by rw [List.filter_append, hnil, List.nil_append, List.length_append, hlen]; omega),
          List.filter_append, hnil, List.nil_append, List.filter_append, hall, List.reverse_reverse]
        simp only [List.append_assoc]
    · have hf : (d :: rest).filter (·.type = "Sub") = rest.filter (·.type = "Sub") :=
        List.filter_cons_of_neg (by simpa using hd)
      have hg : (d :: rest).filter (·.type ≠ "Sub") = d :: rest.filter (·.type ≠ "Sub") :=
        List.filter_cons_of_pos (by simpa using hd)
      rw [hf] at hM hs
      rw [hf, hg]
      simp only [List.length_cons] at hM hs
      simp only [expandLoop, hd, if_false]
      rw [expandLoop_spec M steps (d :: prev) rest
        (fun c hc => (List.mem_cons.mp hc).elim (fun h => h ▸ hd) (hprev c)) hrest
        (by simp only [List.length_cons]; omega) (by omega)]
      simp only [List.reverse_cons, List.append_assoc, List.singleton_append]

end Loop

/-! ### The expansion of the accepted lists -/

/-- The copies `checker_copy_subcircuits` returns for a top-level `Sub` line. -/
def topCopies (fuel : Nat) (reg : List Definition) (d : Definition) : List Definition :=
  match subcircuitIndex reg d with
  | some t =>
    match checkerCopySubcircuits fuel reg t d none with
    | .ok r => r.2.1
    | .error _ => []
  | none => []

/-- The fuel the expansion of `L` against `R` needs: a level per template for the recursion, and
a loop step per line plus a rescan of every line the loop can hold per `Sub` line. -/
def expandBound (R L : List Definition) : Nat :=
  let subs := L.filter (·.type = "Sub")
  let M := L.length + (subs.flatMap fun d =>
    refInstance R (R.length + 1) [] d (d.nodes.map (·.node))).length
  R.length + (subs.length * (M + 1) + L.length)

theorem le_expandBound (R L : List Definition) : R.length ≤ expandBound R L ∧
    (L.filter (·.type = "Sub")).length * (L.length + ((L.filter (·.type = "Sub")).flatMap fun d =>
      refInstance R (R.length + 1) [] d (d.nodes.map (·.node))).length + 1) + L.length ≤
        expandBound R L := by
  constructor <;> simp only [expandBound] <;> omega

/-- With enough fuel, the expansion of lists the checks accepted returns the registry it was
given and the reference copies of the `Sub` lines, reversed, in front of the other lines. -/
theorem accepted_expand {R L : List Definition} (hacc : Accepted L R) (hR : Expandable R)
    (hL : ∀ d ∈ L, ∀ n ∈ d.nodes, n.Parsed) {fuel : Nat} (hfuel : expandBound R L < fuel) :
    ∃ Y, checkerExpandSubcircuits fuel R L = .ok (R, Y ++ L.filter (·.type ≠ "Sub")) ∧
      Y.map Definition.flat = ((L.filter (·.type = "Sub")).flatMap fun d =>
        refInstance R (R.length + 1) [] d (d.nodes.map (·.node))).reverse ∧
      ∀ c ∈ Y, c.type ≠ "Sub" := by
  have hcopy : ∀ d ∈ L, d.type = "Sub" → ∃ t ins, subcircuitIndex R d = some t ∧
      checkerCopySubcircuits fuel R t d none = .ok (R, topCopies fuel R d, ins) ∧
      (topCopies fuel R d).map Definition.flat =
        (refInstance R (R.length + 1) [] d (d.nodes.map (·.node))).reverse := by
    intro d hd hs
    obtain ⟨T, hget, hlen⟩ := hacc.top d hd hs
    obtain ⟨t, C, ins, hidx, hcall, hflat⟩ := topCopy_spec hR hget hlen
      (hacc.acyclic d hd hs T hget) (fun n hn => (hL d hd n hn).1)
      (lt_of_le_of_lt (le_expandBound R L).1 hfuel)
    have hC : topCopies fuel R d = C := by simp [topCopies, hidx, hcall]
    exact ⟨t, ins, hidx, hC ▸ hcall, hC ▸ hflat⟩
  have htype : ∀ d ∈ L, d.type = "Sub" → ∀ c ∈ topCopies fuel R d, c.type ≠ "Sub" := by
    intro d hd hs c hc
    obtain ⟨-, -, -, -, hflat⟩ := hcopy d hd hs
    have : c.flat ∈ (refInstance R (R.length + 1) [] d (d.nodes.map (·.node))).reverse :=
      hflat ▸ List.mem_map_of_mem _ hc
    exact refInstance_type _ (List.mem_reverse.mp this)
  have hsum : ((L.filter (·.type = "Sub")).flatMap (topCopies fuel R)).length =
      ((L.filter (·.type = "Sub")).flatMap fun d =>
        refInstance R (R.length + 1) [] d (d.nodes.map (·.node))).length := by
    simp only [List.flatMap, List.length_flatten, List.map_map]
    refine congrArg List.sum (List.map_congr_left fun d hd => ?_)
    obtain ⟨hd, hs⟩ := List.mem_filter.mp hd
    obtain ⟨-, -, -, -, hflat⟩ := hcopy d hd (by simpa using hs)
    simpa using congrArg List.length hflat
  have hloop := expandLoop_spec (L.length + ((L.filter (·.type = "Sub")).flatMap fun d =>
      refInstance R (R.length + 1) [] d (d.nodes.map (·.node))).length) fuel [] L
    (fun _ h => absurd h (List.not_mem_nil _))
    (fun d hd hs => (hcopy d hd hs).imp fun t ⟨ins, hidx, hcall, _⟩ =>
      ⟨ins, hidx, hcall, htype d hd hs⟩)
    (by rw [hsum]; simp) (lt_of_le_of_lt (le_expandBound R L).2 hfuel)
  refine ⟨(L.filter (·.type = "Sub")).reverse.flatMap (topCopies fuel R), ?_, ?_, ?_⟩
  · simpa [checkerExpandSubcircuits] using hloop
  · rw [List.map_flatMap, List.reverse_flatMap]
    refine List.flatMap_congr fun d hd => ?_
    obtain ⟨hd, hs⟩ := List.mem_filter.mp (List.mem_reverse.mp hd)
    exact (hcopy d hd (by simpa using hs)).choose_spec.choose_spec.2.2
  · intro c hc
    obtain ⟨d, hd, hc⟩ := List.mem_flatMap.mp hc
    obtain ⟨hd, hs⟩ := List.mem_filter.mp (List.mem_reverse.mp hd)
    exact htype d hd (by simpa using hs) c hc

/-- The reference flattening, up to order, is the copies of the `Sub` lines followed by the
other lines. -/
theorem refFlatten_perm (R : List Definition) : ∀ L : List Definition,
    (refFlatten R L).Perm ((L.filter (·.type = "Sub")).flatMap (fun d =>
      refInstance R (R.length + 1) [] d (d.nodes.map (·.node))) ++
        (L.filter (·.type ≠ "Sub")).map Definition.flat)
  | [] => by simp [refFlatten]
  | d :: L => by
    have ih := refFlatten_perm R L
    unfold refFlatten at ih ⊢
    by_cases hs : d.type = "Sub"
    · simpa [hs] using ih.append_left (refInstance R (R.length + 1) [] d (d.nodes.map (·.node)))
    · simpa [hs] using (ih.cons d.flat).trans List.perm_middle.symm

/-- With enough fuel, the expansion of accepted lists is the reference flattening, up to order,
with the lines that are not `Sub` lines behind the copies. -/
theorem accepted_flatten {R L : List Definition} (hacc : Accepted L R) (hR : Expandable R)
    (hL : ∀ d ∈ L, ∀ n ∈ d.nodes, n.Parsed) {fuel : Nat} (hfuel : expandBound R L < fuel) :
    ∃ X, checkerExpandSubcircuits fuel R L = .ok (R, X) ∧
      (X.map Definition.flat).Perm (refFlatten R L) ∧
      (∃ Y, X = Y ++ L.filter (·.type ≠ "Sub")) ∧ ∀ d ∈ X, d.type ≠ "Sub" := by
  obtain ⟨Y, hY, hflat, hsub⟩ := accepted_expand hacc hR hL hfuel
  refine ⟨_, hY, ?_, ⟨Y, rfl⟩, fun d hd => ?_⟩
  · rw [List.map_append, hflat]
    exact ((List.reverse_perm _).append_right _).trans (refFlatten_perm _ _).symm
  · rcases List.mem_append.mp hd with hd | hd
    · exact hsub d hd
    · simpa using (List.mem_filter.mp hd).2

/-! ### After the checks of `netlist_checker` -/

section Validated

variable {available : List Define} {fuel : Nat} {g g' : Globals} {r : Report}
  (h : netlistCheckerValidate available fuel g = .ok (r, g')) (h0 : r.errors = 0)
  (hp : ParsedLines g.definitionRoot) (hq : BodiesParsed g.subcircuitRoot)
include h h0 hp hq

/-- A run whose checks count no error on parsed input hands the expansion lists it expands,
with enough fuel, as `accepted_expand` says. -/
theorem netlistCheckerValidate_expand (n : Nat)
    (hn : expandBound g'.subcircuitRoot g'.definitionRoot < n) :
    ∃ Y, checkerExpandSubcircuits n g'.subcircuitRoot g'.definitionRoot =
        .ok (g'.subcircuitRoot, Y ++ g'.definitionRoot.filter (·.type ≠ "Sub")) ∧
      Y.map Definition.flat = ((g'.definitionRoot.filter (·.type = "Sub")).flatMap fun d =>
        refInstance g'.subcircuitRoot (g'.subcircuitRoot.length + 1) [] d
          (d.nodes.map (·.node))).reverse ∧
      ∀ c ∈ Y, c.type ≠ "Sub" :=
  have hacc := netlistCheckerValidate_accepted h h0
  have hparsed := netlistCheckerValidate_parsed h hp hq
  accepted_expand hacc ⟨hacc.bodies, hparsed.2⟩ hparsed.1 hn

theorem validated_expansion_total :
    ∃ N, ∀ n, N ≤ n → ∃ res,
      checkerExpandSubcircuits n g'.subcircuitRoot g'.definitionRoot = .ok res :=
  ⟨expandBound g'.subcircuitRoot g'.definitionRoot + 1, fun n hn =>
    let ⟨_, hY, _⟩ := netlistCheckerValidate_expand h h0 hp hq n (by omega)
    ⟨_, hY⟩⟩

/-- With enough fuel, the expansion of lists a run accepted is the reference flattening, up to
order, with the lines that are not `Sub` lines behind the copies. -/
theorem netlistCheckerValidate_flatten (n : Nat)
    (hn : expandBound g'.subcircuitRoot g'.definitionRoot < n) :
    ∃ X, checkerExpandSubcircuits n g'.subcircuitRoot g'.definitionRoot =
        .ok (g'.subcircuitRoot, X) ∧
      (X.map Definition.flat).Perm (refFlatten g'.subcircuitRoot g'.definitionRoot) ∧
      (∃ Y, X = Y ++ g'.definitionRoot.filter (·.type ≠ "Sub")) ∧
      ∀ d ∈ X, d.type ≠ "Sub" :=
  have hacc := netlistCheckerValidate_accepted h h0
  have hparsed := netlistCheckerValidate_parsed h hp hq
  accepted_flatten hacc ⟨hacc.bodies, hparsed.2⟩ hparsed.1 hn

theorem validated_expansion_flattens :
    ∃ N, ∀ n, N ≤ n → ∃ X,
      checkerExpandSubcircuits n g'.subcircuitRoot g'.definitionRoot =
        .ok (g'.subcircuitRoot, X) ∧
      (X.map Definition.flat).Perm (refFlatten g'.subcircuitRoot g'.definitionRoot) ∧
      (∃ Y, X = Y ++ g'.definitionRoot.filter (·.type ≠ "Sub")) ∧
      ∀ d ∈ X, d.type ≠ "Sub" :=
  ⟨expandBound g'.subcircuitRoot g'.definitionRoot + 1, fun n hn =>
    netlistCheckerValidate_flatten h h0 hp hq n (by omega)⟩

end Validated

/-- Two nested templates: `Outer` instantiates `Inner` on its port, and `Inner` has an internal
node `n1`. -/
def nestedNetlist : List Definition :=
  [{ type := "Def", «instance» := "Inner", nodes := [namedNode "p"],
     sub := [{ type := "R", «instance» := "R1", nodes := [namedNode "p", namedNode "n1"],
               pairs := [numberPair "R" 1], sub := [] }] },
   { type := "Def", «instance» := "Outer", nodes := [namedNode "q"],
     sub := [{ type := "Sub", «instance» := "innerInst", nodes := [namedNode "q"],
               pairs := [identPair "Type" "Inner"], sub := [] }] },
   { type := "Sub", «instance» := "outer", nodes := [namedNode "ext"],
     pairs := [identPair "Type" "Outer"], sub := [] },
   { type := "DC", «instance» := "DC1", action := true, sub := [] }]

theorem nestedNetlist_parsed : ParsedLines nestedNetlist := by
  simp [nestedNetlist, ParsedLines, ParsedLine, Node.Parsed, namedNode]

theorem nested_expansion_total :
    ∃ r g', netlistCheckerValidate sampleCatalog 5 { definitionRoot := nestedNetlist } =
        .ok (r, g') ∧ r.errors = 0 ∧ ∃ N, ∀ n, N ≤ n → ∃ res,
          checkerExpandSubcircuits n g'.subcircuitRoot g'.definitionRoot = .ok res := by
  obtain ⟨r, g', h, h0⟩ : ∃ r g', netlistCheckerValidate sampleCatalog 5
      { definitionRoot := nestedNetlist } = .ok (r, g') ∧ r.errors = 0 := ⟨_, _, rfl, rfl⟩
  exact ⟨r, g', h, h0, validated_expansion_total h h0 nestedNetlist_parsed
    (fun _ h => absurd h (List.not_mem_nil _))⟩

theorem nested_expansion_flattens :
    ∃ r g', netlistCheckerValidate sampleCatalog 5 { definitionRoot := nestedNetlist } =
        .ok (r, g') ∧ r.errors = 0 ∧ ∃ N, ∀ n, N ≤ n → ∃ X,
      checkerExpandSubcircuits n g'.subcircuitRoot g'.definitionRoot =
        .ok (g'.subcircuitRoot, X) ∧
      (X.map Definition.flat).Perm (refFlatten g'.subcircuitRoot g'.definitionRoot) ∧
      (∃ Y, X = Y ++ g'.definitionRoot.filter (·.type ≠ "Sub")) ∧
      ∀ d ∈ X, d.type ≠ "Sub" := by
  obtain ⟨r, g', h, h0⟩ : ∃ r g', netlistCheckerValidate sampleCatalog 5
      { definitionRoot := nestedNetlist } = .ok (r, g') ∧ r.errors = 0 := ⟨_, _, rfl, rfl⟩
  exact ⟨r, g', h, h0, validated_expansion_flattens h h0 nestedNetlist_parsed
    (fun _ h => absurd h (List.not_mem_nil _))⟩

/-- When the checks of `netlist_checker` count no error, the templates form a hierarchy the
expansion can unfold: every `Sub` line, at the top level and in every template body, names a
template with as many nodes, and the instantiation graph has no cycle at all, not only none
reachable from a top-level instance, since the body of every template is checked. -/
theorem validated_hierarchy_acyclic {available : List Define} {fuel : Nat} {g g' : Globals}
    {r : Report} (h : netlistCheckerValidate available fuel g = .ok (r, g')) (h0 : r.errors = 0) :
    SubsResolve g'.subcircuitRoot g'.definitionRoot ∧
      (∀ T ∈ g'.subcircuitRoot, SubsResolve g'.subcircuitRoot T.sub) ∧
      ∀ w, ¬ Relation.TransGen (SubEdge g'.subcircuitRoot) w w :=
  have hb := netlistCheckerValidate_bodies h h0
  ⟨(netlistCheckerValidate_accepted h h0).top, fun T hT => (hb T hT).1, acyclic_of_bodies hb⟩

theorem nested_hierarchy_acyclic :
    ∃ r g', netlistCheckerValidate sampleCatalog 5 { definitionRoot := nestedNetlist } =
        .ok (r, g') ∧ r.errors = 0 ∧
      SubsResolve g'.subcircuitRoot g'.definitionRoot ∧
        (∀ T ∈ g'.subcircuitRoot, SubsResolve g'.subcircuitRoot T.sub) ∧
        ∀ w, ¬ Relation.TransGen (SubEdge g'.subcircuitRoot) w w := by
  obtain ⟨r, g', h, h0⟩ : ∃ r g', netlistCheckerValidate sampleCatalog 5
      { definitionRoot := nestedNetlist } = .ok (r, g') ∧ r.errors = 0 := ⟨_, _, rfl, rfl⟩
  exact ⟨r, g', h, h0, validated_hierarchy_acyclic h h0⟩

/-- The nested instance of the example: the internal node of `Inner` is named along the whole
path, and its port, wired through `Outer`, takes the top-level node `ext`. -/
example : (netlistChecker sampleCatalog 6 { definitionRoot := nestedNetlist }).map
    (fun x => (x.1, x.2.1.definitionRoot.map fun d => (d.instance, d.nodes.map (·.node)))) =
      .ok (0, [("Inner.outer.innerInst.R1", [some "ext", some "Inner.outer.innerInst.n1"]),
        ("DC1", [])]) := rfl

/-- A template whose two formal ports share the name `a`, instantiated on `n1 n2`. -/
def repeatedPortNetlist : List Definition :=
  [{ type := "Def", «instance» := "T", nodes := [namedNode "a", namedNode "a"],
     sub := [{ type := "R", «instance» := "R1", nodes := [namedNode "a", namedNode "b"],
               pairs := [numberPair "R" 1], sub := [] }] },
   { type := "Sub", «instance» := "x", nodes := [namedNode "n1", namedNode "n2"],
     pairs := [identPair "Type" "T"], sub := [] },
   { type := "DC", «instance» := "DC1", action := true, sub := [] }]

/-- The node `a`, formal port 1 of `T`, takes the second actual node: the translation loop of
`checker_xlat_subcircuit_nodes` lets a later formal port of the same name win. -/
theorem repeated_port_takes_last :
    (netlistChecker sampleCatalog 3 { definitionRoot := repeatedPortNetlist }).map
      (fun x => (x.1, x.2.1.definitionRoot.map fun d => (d.instance, d.nodes.map (·.node)))) =
        .ok (0, [("T.x.R1", [some "n2", some "T.x.b"]), ("DC1", [])]) := rfl

end QucsNetlist
