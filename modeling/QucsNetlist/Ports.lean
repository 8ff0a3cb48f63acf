import QucsNetlist.Flatten

/-! # The analysis and port policies (`check_netlist.cpp:414-436`, `527-554`, `657-692`)

`checker_validate_actions` decides the port policies on the top-level list it is given,
before any expansion: an `.SP` action needs a `Pac` component, and `checker_validate_ports`
reports every two `Pac` components whose `Num` values convert to the same `int`. `Pac`
components in template bodies are not counted, so the policies bind the top-level list and
say nothing about the copies the expansion adds. The same holds of the analysis policies: at
least one action, at most one `.DC` action, and a `.DC` action when an `.SP` or `.AC` analysis
meets a nonlinear line, which alone is counted through the templates.
-/

namespace QucsNetlist

theorem mem_ports {l : List Definition} {k : Nat} {d : Definition} :
    (k, d) ∈ ports l ↔ l[k]? = some d ∧ d.action = false ∧ d.type = "Pac" := by
  simp [ports, List.mk_mem_enum_iff_getElem?]

/-- `checker_validate_ports` counts no error only when any two `Pac` components at different
places have `Num` values that convert to different `int`s. -/
theorem checkerValidatePorts_distinct {root : List Definition}
    (h : (checkerValidatePorts root).errors = 0) {k m : Nat} {d e : Definition} {pv pv' : Pair}
    (hd : (k, d) ∈ ports root) (he : (m, e) ∈ ports root) (hkm : k ≠ m)
    (hpv : checkerFindPropValue d "Num" = some pv)
    (hpv' : checkerFindPropValue e "Num" = some pv') :
    cInt pv.value.value ≠ cInt pv'.value.value := by
  intro heq
  have h1 := Report.concat_errors_eq_zero.mp h _ (List.mem_map_of_mem _ hd)
  simp only [hpv] at h1
  have h2 := Report.concat_errors_eq_zero.mp h1 _ (List.mem_map_of_mem _ he)
  simp [hpv', Ne.symm hkm, heq] at h2

/-- The analyses count no error only when an `.SP` action comes with a `Pac` component. -/
theorem checkAnalyses_pac {reg root : List Definition} {cycles fuel : Nat} {a : Report}
    (h : checkAnalyses reg cycles fuel root = .ok a) (h0 : a.errors = 0)
    (hsp : 1 ≤ checkerCountDefinitions root (some "SP") true) :
    1 ≤ checkerCountDefinitions root (some "Pac") false := by
  unfold checkAnalyses at h
  split at h
  · cases h; simp [Report.error] at h0
  · obtain ⟨c, -, h⟩ := bind_eq_ok.mp h
    cases h
    by_contra hpac
    have hp : checkerCountDefinitions root (some "Pac") false < 1 := by omega
    simp [hsp, hp] at h0

/-! ### From the checked list to the list handed on -/

/-- A line as `checker_validate_lists` may rewrite it: actions are hidden, other lines kept. -/
def passive (d : Definition) : Option Definition := if d.action then none else some d

theorem checkerValidateLists_passive {root : List Definition} {r : Report × List Definition}
    (h : checkerValidateLists root = .ok r) : r.2.map passive = root.map passive := by
  refine foldlM_inv (fun st : Report × List Definition => st.2.map passive)
    (fun st i st' hs => ?_) h
  show st'.2.map passive = st.2.map passive
  rcases validateList_cases hs with hs | ⟨d, f, hd, hact, -, hs⟩ <;> rw [hs]
  exact map_modify_at (by simp [passive, modifyPropValue, hact]) hd

/-- The `Pac` components of the list `checker_validate_lists` hands on are those it checked. -/
theorem ports_of_lists {root : List Definition} {r : Report × List Definition}
    (h : checkerValidateLists root = .ok r) {k : Nat} {d : Definition}
    (hd : (k, d) ∈ ports r.2) : (k, d) ∈ ports root := by
  obtain ⟨hk, hact, hpac⟩ := mem_ports.mp hd
  have hv := congrArg (·[k]?) (checkerValidateLists_passive h)
  simp only [List.getElem?_map, hk, Option.map_some', passive, hact] at hv
  obtain ⟨d', hk', hd'⟩ := Option.map_eq_some'.mp hv.symm
  cases hda : d'.action <;> simp [passive, hda] at hd'
  subst hd'
  exact mem_ports.mpr ⟨hk', hact, hpac⟩

theorem checkerCountDefinitions_of_skeletons {l l' : List Definition}
    (h : skeletons l = skeletons l') (type : Option String) (action : Bool) :
    checkerCountDefinitions l type action = checkerCountDefinitions l' type action := by
  have hc : ∀ l : List Definition, checkerCountDefinitions l type action =
      (l.map Definition.shape).countP fun s => s.2.2.1 == action && type.all (· == s.1) :=
    fun l => by rw [List.countP_map]; rfl
  rw [hc, hc, shapes_of_skeletons h]

/-- When the checks of `netlist_checker` count no error, the top-level list they hand to the
expansion has a `Pac` component if it has an `.SP` action, and the `Num` values of any two of
its `Pac` components convert to different `int`s, so they have different integer parts. -/
theorem accepted_port_policies {available : List Define} {fuel : Nat} {g g' : Globals}
    {r : Report} (h : netlistCheckerValidate available fuel g = .ok (r, g')) (h0 : r.errors = 0) :
    (1 ≤ checkerCountDefinitions g'.definitionRoot (some "SP") true →
      1 ≤ checkerCountDefinitions g'.definitionRoot (some "Pac") false) ∧
    ∀ k d m e pv pv', (k, d) ∈ ports g'.definitionRoot → (m, e) ∈ ports g'.definitionRoot →
      k ≠ m → checkerFindPropValue d "Num" = some pv → checkerFindPropValue e "Num" = some pv' →
      cInt pv.value.value ≠ cInt pv'.value.value := by
  unfold netlistCheckerValidate at h
  obtain ⟨⟨r0, stored, root, reg⟩, -, h⟩ := bind_eq_ok.mp h
  obtain ⟨actions, ha, h⟩ := bind_eq_ok.mp h
  cases h
  unfold checkerValidateActions at ha
  obtain ⟨an, han, ha⟩ := bind_eq_ok.mp ha
  obtain ⟨para, -, ha⟩ := bind_eq_ok.mp ha
  obtain ⟨lists, hl, ha⟩ := bind_eq_ok.mp ha
  cases ha
  simp only [Report.append_errors] at h0
  have hsk := skeletons_checkerValidateLists hl
  refine ⟨fun hsp => ?_, fun k d m e pv pv' hd he hkm hpv hpv' => ?_⟩
  · rw [checkerCountDefinitions_of_skeletons hsk] at hsp ⊢
    exact checkAnalyses_pac han (by omega) hsp
  · exact checkerValidatePorts_distinct (by omega) (ports_of_lists hl hd) (ports_of_lists hl he)
      hkm hpv hpv'

/-- An S-parameter analysis of one port next to an instance of the template `Load`. -/
def portNetlist : List Definition :=
  [{ type := "Def", «instance» := "Load", nodes := [namedNode "p"],
     sub := [{ type := "R", «instance» := "R1", nodes := [namedNode "p", namedNode "gnd"],
               pairs := [numberPair "R" 50], sub := [] }] },
   { type := "Pac", «instance» := "P1", nodes := [namedNode "a", namedNode "gnd"],
     pairs := [numberPair "Num" 1], sub := [] },
   { type := "Sub", «instance» := "x", nodes := [namedNode "a"],
     pairs := [identPair "Type" "Load"], sub := [] },
   { type := "SP", «instance» := "SP1", action := true,
     pairs := [identPair "Type" "lin", numberPair "Start" 1, numberPair "Stop" 2,
       numberPair "Points" 3], sub := [] }]

theorem port_netlist_policies :
    ∃ r g', netlistCheckerValidate analysisCatalog 5 { definitionRoot := portNetlist } =
        .ok (r, g') ∧ r.errors = 0 ∧ 1 ≤ checkerCountDefinitions g'.definitionRoot (some "SP") true ∧
      (1 ≤ checkerCountDefinitions g'.definitionRoot (some "SP") true →
        1 ≤ checkerCountDefinitions g'.definitionRoot (some "Pac") false) ∧
      ∀ k d m e pv pv', (k, d) ∈ ports g'.definitionRoot → (m, e) ∈ ports g'.definitionRoot →
        k ≠ m → checkerFindPropValue d "Num" = some pv → checkerFindPropValue e "Num" = some pv' →
        cInt pv.value.value ≠ cInt pv'.value.value := by
  obtain ⟨r, g', h, h0, hsp⟩ : ∃ r g', netlistCheckerValidate analysisCatalog 5
      { definitionRoot := portNetlist } = .ok (r, g') ∧ r.errors = 0 ∧
        1 ≤ checkerCountDefinitions g'.definitionRoot (some "SP") true := ⟨_, _, rfl, rfl, by decide⟩
  exact ⟨r, g', h, h0, hsp, accepted_port_policies h h0⟩

/-- A `Pac` component only inside a template instantiated next to an `.SP` action. -/
def pacInTemplate : List Definition :=
  [{ type := "Def", «instance» := "P", nodes := [namedNode "a"],
     sub := [{ type := "Pac", «instance» := "P1", nodes := [namedNode "a", namedNode "gnd"],
               pairs := [numberPair "Num" 1], sub := [] }] },
   { type := "Sub", «instance» := "x", nodes := [namedNode "n1"],
     pairs := [identPair "Type" "P"], sub := [] },
   { type := "SP", «instance» := "SP1", action := true,
     pairs := [identPair "Type" "lin", numberPair "Start" 1, numberPair "Stop" 2,
       numberPair "Points" 3], sub := [] }]

/-- The expansion of the checked lists has the `Pac` copy next to the `.SP` action, yet the
run reports, as its only error, that a `Pac` is required: the policy counts only the top-level
list. -/
theorem template_port_unseen :
    (netlistChecker analysisCatalog 4 { definitionRoot := pacInTemplate }).map
        (fun x => (x.1, x.2.2)) = .ok (-1, [.pacRequired 0]) ∧
    (netlistCheckerValidate analysisCatalog 4 { definitionRoot := pacInTemplate } >>= fun x =>
        checkerExpandSubcircuits 4 x.2.subcircuitRoot x.2.definitionRoot).map
          (fun x => x.2.map fun d => (d.type, d.instance, d.action)) =
      .ok [("Pac", "P.x.P1", false), ("SP", "SP1", true)] :=
  ⟨rfl, rfl⟩

/-! ### The analyses and the `.DC` action -/

/-- The analyses count no error only when the list has an action and at most one `.DC` action,
the count of nonlinear lines returns, and a positive count under an `.SP` or `.AC` analysis
comes with a `.DC` action. -/
theorem checkAnalyses_dc {reg root : List Definition} {cycles fuel : Nat} {a : Report}
    (h : checkAnalyses reg cycles fuel root = .ok a) (h0 : a.errors = 0) :
    1 ≤ checkerCountDefinitions root none true ∧
      checkerCountDefinitions root (some "DC") true ≤ 1 ∧
      ∃ c, checkerCountNonlinearities reg cycles fuel root = .ok c ∧
        (1 ≤ checkerCountDefinitions root (some "SP") true +
            checkerCountDefinitions root (some "AC") true → 1 ≤ c →
          1 ≤ checkerCountDefinitions root (some "DC") true) := by
  unfold checkAnalyses at h
  split at h
  · cases h; simp [Report.error] at h0
  · obtain ⟨c, hc, h⟩ := bind_eq_ok.mp h
    cases h
    simp only [Report.append_errors, Nat.add_eq_zero, Report.when_errors_eq_zero,
      Bool.and_eq_false_iff, decide_eq_false_iff_not] at h0
    exact ⟨by omega, by omega, c, hc, fun ha hc1 => by omega⟩

/-- A list folded with a step that reads of each element one view only folds as any list of the
same views. -/
theorem foldlM_of_views {m : Type → Type} [Monad m] {α β γ : Type} {V : α → γ}
    {f : β → α → m β} (hf : ∀ b x y, V x = V y → f b x = f b y) :
    ∀ {l l' : List α} {b : β}, l.map V = l'.map V → l.foldlM f b = l'.foldlM f b
  | [], [], _, _ => rfl
  | [], _ :: _, _, h => by cases h
  | _ :: _, [], _, h => by cases h
  | x :: l, y :: l', b, h => by
    simp only [List.map_cons, List.cons.injEq] at h
    simp only [List.foldlM_cons, hf b x y h.1]
    congr 1; funext b'
    exact foldlM_of_views hf h.2

/-- The count of nonlinear lines reads of each line its shape and its flag only. -/
theorem checkerCountNonlinearities_of_views {reg : List Definition} {cycles : Nat} :
    ∀ {fuel : Nat} {l l' : List Definition},
      l.map (fun d => (d.shape, d.nonlinear)) = l'.map (fun d => (d.shape, d.nonlinear)) →
        checkerCountNonlinearities reg cycles fuel l = checkerCountNonlinearities reg cycles fuel l'
  | 0, _, _, _ => rfl
  | _ + 1, _, _, h => foldlM_of_views (fun _ d d' hd => by
      obtain ⟨hs, hn⟩ := Prod.mk.inj hd
      simp only [countStep, checkerGetSubcircuit, hn, (shape_eq_iff.mp hs).1,
        checkerFindReference_of_shape hs]) h

/-- When the checks of `netlist_checker` count no error, the top-level list they hand to the
expansion has an action and at most one `.DC` action, the count of its nonlinear lines through
the templates, as `checker_validate_actions` makes it with the `checker_sub_cycles` the run
leaves, returns, and when that count is positive and the list has an `.SP` or `.AC` action, it
has a `.DC` action. -/
theorem accepted_analysis_policies {available : List Define} {fuel : Nat} {g g' : Globals}
    {r : Report} (h : netlistCheckerValidate available fuel g = .ok (r, g')) (h0 : r.errors = 0) :
    1 ≤ checkerCountDefinitions g'.definitionRoot none true ∧
      checkerCountDefinitions g'.definitionRoot (some "DC") true ≤ 1 ∧
      ∃ c, checkerCountNonlinearities g'.subcircuitRoot g'.subCycles fuel g'.definitionRoot =
          .ok c ∧
        (1 ≤ checkerCountDefinitions g'.definitionRoot (some "SP") true +
            checkerCountDefinitions g'.definitionRoot (some "AC") true → 1 ≤ c →
          1 ≤ checkerCountDefinitions g'.definitionRoot (some "DC") true) := by
  unfold netlistCheckerValidate at h
  obtain ⟨⟨r0, stored, root, reg⟩, -, h⟩ := bind_eq_ok.mp h
  obtain ⟨actions, ha, h⟩ := bind_eq_ok.mp h
  cases h
  have hsk := skeletons_checkerValidateActions ha
  have hnl := views_checkerValidateActions (V := fun d => (d.shape, d.nonlinear))
    (fun d ps hps => by simp only [Definition.shape, refs_of_forms hps]) ha
  unfold checkerValidateActions at ha
  obtain ⟨an, han, ha⟩ := bind_eq_ok.mp ha
  obtain ⟨para, -, ha⟩ := bind_eq_ok.mp ha
  obtain ⟨lists, -, ha⟩ := bind_eq_ok.mp ha
  cases ha
  simp only [Report.append_errors] at h0
  simp only [checkerCountDefinitions_of_skeletons hsk, checkerCountNonlinearities_of_views hnl]
  exact checkAnalyses_dc han (by omega)

/-! ### Every clash is reported from both sides -/

/-- The `Num` number of a component converted to `int`, as `checker_validate_ports` compares
it. -/
def portNum (d : Definition) : Option Int :=
  (checkerFindPropValue d "Num").map fun pv => cInt pv.value.value

/-- Two ports at different places whose `Num` numbers convert to one `int`. -/
def portClash (a b : Nat × Definition) : Bool :=
  b.1 != a.1 && (portNum a.2).isSome && portNum b.2 == portNum a.2

/-- The clashes among a list of ports, each unordered pair counted once. -/
def portClashes : List (Nat × Definition) → Nat
  | [] => 0
  | a :: l => l.countP (portClash a) + portClashes l

theorem portClash_comm (a b : Nat × Definition) : portClash a b = portClash b a := by
  unfold portClash
  rw [Bool.eq_iff_iff]
  simp only [Bool.and_eq_true, bne_iff_ne, beq_iff_eq]
  constructor <;> rintro ⟨⟨h1, h2⟩, h3⟩ <;> exact ⟨⟨Ne.symm h1, h3 ▸ h2⟩, h3.symm⟩

theorem concat_errors_map {α : Type} (g : α → Report) : ∀ m : List α,
    (Report.concat (m.map g)).errors = m.foldr (fun a n => (g a).errors + n) 0
  | [] => rfl
  | a :: m => congrArg ((g a).errors + ·) (concat_errors_map g m)

theorem concat_errors_countP {α : Type} (g : α → Report) (p : α → Bool)
    (hg : ∀ a, (g a).errors = if p a then 1 else 0) :
    ∀ m : List α, (Report.concat (m.map g)).errors = m.countP p
  | [] => rfl
  | a :: m => by
    show (g a).errors + (Report.concat (m.map g)).errors = _
    rw [hg, concat_errors_countP g p hg m, List.countP_cons]
    omega

/-- The double sum over ports of a clash count, split at one more port on the right. -/
theorem foldr_countP_cons (b : Nat × Definition) (L : List (Nat × Definition)) :
    ∀ m : List (Nat × Definition), m.foldr (fun a n => (b :: L).countP (portClash a) + n) 0 =
      m.foldr (fun a n => L.countP (portClash a) + n) 0 + m.countP (portClash b)
  | [] => rfl
  | a :: m => by
    simp only [List.foldr_cons]
    rw [foldr_countP_cons b L m, List.countP_cons, List.countP_cons, portClash_comm a b]
    omega

theorem foldr_countP_self : ∀ L : List (Nat × Definition),
    L.foldr (fun a n => L.countP (portClash a) + n) 0 = 2 * portClashes L
  | [] => rfl
  | x :: xs => by
    have hxx : portClash x x = false := by simp [portClash]
    rw [List.foldr_cons, foldr_countP_cons x xs xs, List.countP_cons, hxx, foldr_countP_self xs,
      portClashes, if_neg Bool.false_ne_true]
    omega

/-- `checker_validate_ports` reports every clash of two `Pac` components twice, once from each
side: its errors are twice the number of unordered pairs of `Pac` components at different places
whose `Num` numbers convert to one `int`. -/
theorem port_clashes_reported_twice (root : List Definition) :
    (checkerValidatePorts root).errors = 2 * portClashes (ports root) := by
  rw [checkerValidatePorts, concat_errors_map, ← foldr_countP_self]
  congr 1
  funext ⟨k, d⟩ n
  congr 1
  dsimp only
  cases hp : checkerFindPropValue d "Num" with
  | none => exact (List.countP_eq_zero.mpr fun b _ => by simp [portClash, portNum, hp]).symm
  | some pv =>
    refine concat_errors_countP _ _ (fun ⟨m, port⟩ => ?_) _
    cases hq : checkerFindPropValue port "Num" <;> simp [portClash, portNum, hp, hq, @eq_comm ℤ]

end QucsNetlist
