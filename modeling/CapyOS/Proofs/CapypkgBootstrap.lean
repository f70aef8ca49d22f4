import CapyOS.Lib.Layering
import CapyOS.Services.CapypkgBootstrap

namespace CapyOS.Proofs
open Lib List
variable {s : Capypkg} {p : InstallProfile} {t t' : Finset Nat × Bool} {targets : Finset Nat}
  {i d wave : Nat} {plan : BootstrapPlanner}

/-! ## The catalog -/

/-- The first entry of a name. -/
def FirstNamed (s : Capypkg) (name : Text) (d : Nat) : Prop :=
  name ≠ [] ∧ (∃ e, s.available[d]? = some e ∧ e.name = name) ∧
    ∀ j < d, ∀ e, s.available[j]? = some e → e.name ≠ name

theorem count_eq (c : BootstrapTables) : c.tables.bootstrapCount = c.tables.available.length :=
  Nat.min_eq_left c.available

theorem catalogIndex_iff (c : BootstrapTables) (name : Text) (d : Nat) :
    c.tables.bootstrapCatalogIndex name = some d ↔ FirstNamed c.tables name d := by
  rw [Capypkg.bootstrapCatalogIndex, FirstNamed]
  by_cases hname : name = []
  · simp [hname]
  · rw [if_neg hname, List.find?_range_eq_some, count_eq]
    have hany : ∀ j : Nat, (c.tables.available[j]?.any fun e => e.name = name) = true ↔
        ∃ e, c.tables.available[j]? = some e ∧ e.name = name := by
      intro j
      rw [Option.any_eq_true]
      simp only [decide_eq_true_eq]
    constructor
    · rintro ⟨hhit, -, hmiss⟩
      refine ⟨hname, (hany d).mp hhit, fun j hj e he hen => ?_⟩
      have hno := hmiss j hj
      rw [Bool.not_eq_true', ← Bool.not_eq_true] at hno
      exact hno ((hany j).mpr ⟨e, he, hen⟩)
    · rintro ⟨-, ⟨e, he, hen⟩, hmiss⟩
      have hlt : d < c.tables.available.length := (List.getElem?_eq_some_iff.mp he).1
      refine ⟨(hany d).mpr ⟨e, he, hen⟩, List.mem_range.mpr hlt, fun j hj => ?_⟩
      rw [Bool.not_eq_true', ← Bool.not_eq_true]
      intro hhit
      obtain ⟨f, hf, hfn⟩ := (hany j).mp hhit
      exact hmiss j hj f hf hfn

/-- A dependency that is in the catalog. -/
def Depends (s : Capypkg) (i d : Nat) : Prop :=
  ∃ e, s.available[i]? = some e ∧ ∃ dep ∈ e.deps, FirstNamed s dep d

/-! ## The targets -/

structure Pulled (s : Capypkg) (t t' : Finset Nat × Bool) : Prop where
  grows : t.1 ⊆ t'.1
  inside : t.1 ⊆ Finset.range s.bootstrapCount → t'.1 ⊆ Finset.range s.bootstrapCount
  least : ∀ T : Set Nat, (∀ i ∈ T, ∀ d, Depends s i d → d ∈ T) → ↑t.1 ⊆ T → ↑t'.1 ⊆ T
  same : t'.2 = false → t' = t
  more : t'.2 = true → t.2 = true ∨ t.1.card < t'.1.card

theorem Pulled.refl (t : Finset Nat × Bool) : Pulled s t t :=
  ⟨fun _ h => h, id, fun _ _ h => h, fun _ => rfl, .inl⟩

theorem Pulled.trans {t'' : Finset Nat × Bool} (h : Pulled s t t') (h' : Pulled s t' t'') : Pulled s t t'' := by
  refine ⟨h.grows.trans h'.grows, fun hin => h'.inside (h.inside hin),
    fun T hT hin => h'.least T hT (h.least T hT hin), fun hno => ?_, fun hyes => ?_⟩
  · obtain rfl := h'.same hno
    exact h.same hno
  · rcases h'.more hyes with hflag | hcard
    · rcases h.more hflag with hflag | hcard
      · exact .inl hflag
      · exact .inr (Nat.lt_of_lt_of_le hcard (Finset.card_le_card h'.grows))
    · exact .inr (Nat.lt_of_le_of_lt (Finset.card_le_card h.grows) hcard)

/-- Steps one after the other. Where the flag stays clear, none of them did anything. -/
theorem fold_pulled {β : Type} {f : Finset Nat × Bool → β → Finset Nat × Bool} {l : List β} {P : Finset Nat → Prop}
    (hP : ∀ t t' : Finset Nat × Bool, Pulled s t t' → P t.1 → P t'.1)
    (hf : ∀ x ∈ l, ∀ t, P t.1 → Pulled s t (f t x)) (t : Finset Nat × Bool) (ht : P t.1) :
    Pulled s t (l.foldl f t) ∧ ((l.foldl f t).2 = false → ∀ x ∈ l, f t x = t) := by
  induction l generalizing t with
  | nil => exact ⟨.refl t, fun _ _ h => nomatch h⟩
  | cons x l ih =>
    have hx := hf x mem_cons_self t ht
    obtain ⟨hrest, hsame⟩ := ih (fun y hy => hf y (mem_cons_of_mem x hy)) (f t x) (hP _ _ hx ht)
    refine ⟨hx.trans hrest, fun hno => ?_⟩
    have hmid : (f t x).2 = false := by rw [← hrest.same hno]; exact hno
    have heq := hx.same hmid
    have hl := hsame hno
    rw [heq] at hl
    exact forall_mem_cons.mpr ⟨heq, hl⟩

theorem pullDependency_pulled (c : BootstrapTables) {e : CapypkgEntry} (he : c.tables.available[i]? = some e)
    {dep : Text} (hdep : dep ∈ e.deps) (hi : i ∈ t.1) : Pulled c.tables t (c.tables.pullDependency t dep) := by
  rw [Capypkg.pullDependency]
  split
  next => exact .refl t
  next d hd =>
    split
    next => exact .refl t
    next hnew =>
      have hfirst := (catalogIndex_iff c dep d).mp hd
      refine ⟨Finset.subset_insert d t.1, fun hin => ?_, fun T hT hin => ?_, nofun, fun _ => .inr ?_⟩
      · obtain ⟨-, ⟨f, hf, -⟩, -⟩ := hfirst
        have hlt := (List.getElem?_eq_some_iff.mp hf).1
        exact Finset.insert_subset (Finset.mem_range.mpr (by rwa [count_eq])) hin
      · rw [Finset.coe_insert]
        exact Set.insert_subset (hT i (hin hi) d ⟨e, he, dep, hdep, hfirst⟩) hin
      · rw [Finset.card_insert_of_notMem hnew]
        exact Nat.lt_succ_self _

theorem pullDependencies_pulled (c : BootstrapTables) (t : Finset Nat × Bool) (i : Nat) :
    Pulled c.tables t (c.tables.pullDependencies t i) ∧
    ((c.tables.pullDependencies t i).2 = false → i ∈ t.1 → ∀ d, Depends c.tables i d → d ∈ t.1) := by
  rw [Capypkg.pullDependencies]
  split
  next hi => exact ⟨.refl t, fun _ hin => absurd hin hi⟩
  next hi =>
    rw [not_not] at hi
    split
    next hnone => exact ⟨.refl t, fun _ _ d ⟨e, he, _⟩ => by rw [hnone] at he; exact nomatch he⟩
    next e he =>
      obtain ⟨hpulled, hsame⟩ := fold_pulled (s := c.tables) (P := (i ∈ ·)) (fun _ _ h hin => h.grows hin)
        (fun dep hdep t ht => pullDependency_pulled c he hdep ht) t hi
      refine ⟨hpulled, fun hno _ d ⟨f, hf, dep, hdep, hd⟩ => ?_⟩
      obtain rfl := Option.some.inj (he.symm.trans hf)
      have hstep := hsame hno dep hdep
      have hflag : t.2 = false := by rw [← hpulled.same hno]; exact hno
      rw [Capypkg.pullDependency, (catalogIndex_iff c dep d).mpr hd] at hstep
      dsimp only at hstep
      split at hstep
      next hin => exact hin
      next =>
        rw [← hstep] at hflag
        exact nomatch hflag

theorem planClose_spec (c : BootstrapTables) (fuel : Nat) (targets : Finset Nat)
    (hin : targets ⊆ Finset.range c.tables.bootstrapCount) (hfuel : c.tables.bootstrapCount < fuel + targets.card) :
    ∃ closed, c.tables.planClose fuel targets = some closed ∧ closed ⊆ Finset.range c.tables.bootstrapCount ∧
      (closed : Set Nat) = closureOf (Depends c.tables) targets := by
  induction fuel generalizing targets with
  | zero =>
    have hcard := Finset.card_le_card hin
    rw [Finset.card_range] at hcard
    omega
  | succ fuel ih =>
    obtain ⟨hpulled, hsame⟩ := fold_pulled (s := c.tables) (P := fun _ => True) (fun _ _ _ h => h)
      (l := range c.tables.bootstrapCount)
      (fun i _ t _ => (pullDependencies_pulled c t i).1) (targets, false) trivial
    rw [Capypkg.planClose]
    rcases hpass : (range c.tables.bootstrapCount).foldl c.tables.pullDependencies (targets, false)
      with ⟨t, flag⟩
    rw [hpass] at hpulled hsame
    cases flag with
    | true =>
      have hcard : targets.card < t.card := (hpulled.more rfl).resolve_left nofun
      obtain ⟨closed, hclose, hclosed, heq⟩ := ih t (hpulled.inside hin) (by omega)
      refine ⟨closed, hclose, hclosed, heq.trans ?_⟩
      refine closureOf_eq_iff.mpr ⟨?_, ?_⟩
      · exact hpulled.least _ (isLeast_closureOf (r := Depends c.tables) _).1.2 (isLeast_closureOf _).1.1
      · intro i hi
        exact (isLeast_closureOf _).1.1 (hpulled.grows hi)
    | false =>
      obtain rfl : t = targets := congrArg Prod.fst (hpulled.same rfl)
      refine ⟨t, rfl, hin, Set.Subset.antisymm (isLeast_closureOf _).1.1 ?_⟩
      refine (isLeast_closureOf _).2 ⟨fun i hi => hi, fun i hi d hd => ?_⟩
      have hrange : i ∈ range c.tables.bootstrapCount := List.mem_range.mpr (Finset.mem_range.mp (hin hi))
      have hstep := hsame rfl i hrange
      exact (pullDependencies_pulled c (t, false) i).2 (by rw [hstep]) hi d hd

/-! ## The names of a list -/

def listedNames (list : Text) : List Text := installListNames (list.length + 1) list

theorem next_cut {size big : Nat} {list : Text} (hbig : list.length < big) (hsize : size ≤ big) : installListNext size list =
      (installListNext big list).map fun token => (token.1.take (size - 1), token.2) := by
  rw [installListNext, installListNext]
  split
  next => rfl
  next =>
    rw [Option.map_some, profileCopy, profileCopy, take_take, Nat.min_eq_left (by omega)]

theorem next_shorter {size : Nat} {list rest token : Text} (h : installListNext size list = some (token, rest)) :
    token.length ≤ list.length ∧ rest.length ≤ list.length := by
  rw [installListNext] at h
  split at h
  next => exact nomatch h
  next =>
    obtain ⟨rfl, rfl⟩ := Prod.mk.inj (Option.some.inj h)
    have hskip := (dropWhile_suffix (l := list) fun c => decide (c = ',') || profileBlank c).length_le
    refine ⟨?_, (dropWhile_suffix _).length_le.trans hskip⟩
    rw [profileCopy]
    exact (length_take_le' _ _).trans (((List.rdropWhile_prefix profileBlank _).length_le.trans
      (List.takeWhile_prefix _).length_le).trans hskip)

theorem next_ne_nil {list rest token : Text} {size : Nat} (h : installListNext size list = some (token, rest))
    (hsize : 1 < size) : token ≠ [] := by
  rw [installListNext] at h
  split at h
  next => exact nomatch h
  next hne =>
    obtain ⟨rfl, -⟩ := Prod.mk.inj (Option.some.inj h)
    have hhead := head_dropWhile_not (fun c => decide (c = ',') || profileBlank c) hne
    rcases hrest : list.dropWhile (fun c => c = ',' || profileBlank c) with _ | ⟨c, more⟩
    · exact absurd hrest hne
    · simp only [hrest, head_cons, Bool.or_eq_false_iff, decide_eq_false_iff_not] at hhead
      rw [takeWhile_cons_of_pos (by simpa using hhead.1), profileCopy, Ne, take_eq_nil_iff, not_or]
      refine ⟨by omega, fun hnil => ?_⟩
      have hblank := rdropWhile_eq_nil_iff.mp hnil c mem_cons_self
      rw [hhead.2] at hblank
      exact nomatch hblank

theorem tokens_cut {size big : Nat} (hsize : size ≤ big) (n : Nat) (list : Text) (hbig : list.length < big) :
    installListTokens size n list = (installListTokens big n list).map (·.take (size - 1)) := by
  induction n generalizing list with
  | zero => rfl
  | succ n ih =>
    rw [installListTokens, installListTokens, next_cut hbig hsize]
    cases hnext : installListNext big list with
    | none => rfl
    | some token =>
      rw [Option.map_some]
      dsimp only
      rw [map_cons, ih token.2 (Nat.lt_of_le_of_lt (next_shorter hnext).2 hbig)]

theorem tokens_length {size : Nat} (n : Nat) (list : Text) :
    ∀ name ∈ installListTokens size n list, name.length ≤ list.length := by
  induction n generalizing list with
  | zero => exact fun _ h => nomatch h
  | succ n ih =>
    rw [installListTokens]
    cases hnext : installListNext size list with
    | none => exact fun _ h => nomatch h
    | some token =>
      obtain ⟨htoken, hrest⟩ := next_shorter hnext
      exact forall_mem_cons.mpr ⟨htoken, fun name hname => (ih token.2 name hname).trans hrest⟩

theorem tokens_ne_nil {size : Nat} (hsize : 1 < size) (n : Nat) (list : Text) :
    ∀ name ∈ installListTokens size n list, name ≠ [] := by
  induction n generalizing list with
  | zero => exact fun _ h => nomatch h
  | succ n ih =>
    rw [installListTokens]
    cases hnext : installListNext size list with
    | none => exact fun _ h => nomatch h
    | some token => exact forall_mem_cons.mpr ⟨next_ne_nil hnext hsize, ih token.2⟩

theorem listed_found {list name : Text} (h : name ∈ listedNames list) (hfits : name.length < installProfileNameMax) :
    profileInstallListContains list name = true := by
  have hlist : list ≠ [] := by
    rintro rfl
    exact nomatch h
  have hpos := length_pos_iff.mpr hlist
  have hne := tokens_ne_nil (by omega) _ _ name h
  rw [profileInstallListContains, decide_eq_true_eq]
  refine ⟨hlist, hne, ?_⟩
  -- a buffer at least as large as both cuts neither
  have hbig : list.length < max (list.length + 1) installProfileNameMax := by omega
  rw [listedNames, installListNames, tokens_cut (Nat.le_max_left _ installProfileNameMax) _ _ hbig] at h
  rw [installListNames, tokens_cut (Nat.le_max_right (list.length + 1) _) _ _ hbig]
  obtain ⟨whole, hwhole, rfl⟩ := mem_map.mp h
  refine mem_map.mpr ⟨whole, hwhole, ?_⟩
  have hlen := tokens_length _ _ whole hwhole
  rw [Nat.add_sub_cancel, length_take] at hfits
  rw [Nat.add_sub_cancel, take_of_length_le hlen]
  exact take_of_length_le (by omega)

/-! ## The waves -/

/-- A dependency that a target has to wait for: it is a target too, and not installed. -/
def WaitsFor (s : Capypkg) (targets : Finset Nat) (i d : Nat) : Prop :=
  d ∈ targets ∧ ∃ e, s.available[i]? = some e ∧ ∃ dep ∈ e.deps, s.findInstalled dep = none ∧ FirstNamed s dep d

theorem mem_planEdges (c : BootstrapTables) (hi : i ∈ targets) :
    d ∈ c.tables.planEdges targets i ↔ WaitsFor c.tables targets i d := by
  rw [Capypkg.planEdges, if_neg (not_not.mpr hi), WaitsFor]
  cases he : c.tables.available[i]? with
  | none => simp
  | some e =>
    dsimp only
    -- there are no more edges than dependencies, so none is cut off
    have hcut : ((e.deps.filter fun dep => (c.tables.findInstalled dep).isNone).filterMap fun dep =>
        (c.tables.bootstrapCatalogIndex dep).filter (· ∈ targets)).length ≤ capypkgMaxDeps :=
      (length_filterMap_le _ _).trans ((length_filter_le _ _).trans (c.deps e (mem_of_getElem? he)))
    rw [take_of_length_le hcut, mem_filterMap]
    simp only [mem_filter, Option.isNone_iff_eq_none, Option.filter_eq_some_iff, decide_eq_true_eq,
      catalogIndex_iff, Option.some.injEq, exists_eq_left']
    constructor
    · rintro ⟨dep, ⟨hdep, hnot⟩, hd, hin⟩
      exact ⟨hin, dep, hdep, hnot, hd⟩
    · rintro ⟨hin, dep, hdep, hnot, hd⟩
      exact ⟨dep, ⟨hdep, hnot⟩, hd, hin⟩

structure PlanInv (s : Capypkg) (targets : Finset Nat) (plan : BootstrapPlanner) (wave : Nat) : Prop where
  target : plan.isTarget = targets
  edges : ∀ i ∈ targets, ∀ d, d ∈ plan.depIdx i ↔ WaitsFor s targets i d
  total : plan.targetCount = targets.card
  placed : ∀ i, i ∈ plan.placed ↔ i ∈ plan.order.map Prod.fst
  layered : Layered targets (WaitsFor s targets) plan.order wave

theorem mem_planRest (h : PlanInv s targets plan wave) (hin : targets ⊆ Finset.range s.bootstrapCount) (i : Nat) :
    i ∈ s.planRest plan ↔ i ∈ targets ∧ i ∉ plan.order.map Prod.fst := by
  rw [Capypkg.planRest, mem_filter, decide_eq_true_eq, h.target, h.placed, mem_range]
  exact ⟨fun hrest => hrest.2, fun hleft => ⟨Finset.mem_range.mp (hin hleft.1), hleft⟩⟩

theorem mem_planReady (h : PlanInv s targets plan wave) (hin : targets ⊆ Finset.range s.bootstrapCount) (i : Nat) :
    i ∈ s.planReady plan ↔ i ∈ targets ∧ i ∉ plan.order.map Prod.fst ∧
      ∀ d, WaitsFor s targets i d → d ∈ plan.order.map Prod.fst := by
  rw [Capypkg.planReady, mem_filter, mem_planRest h hin, decide_eq_true_eq, and_assoc]
  refine and_congr_right fun hi => and_congr_right fun _ => forall_congr' fun d => ?_
  rw [h.edges i hi, h.placed]

theorem planRest_nodup (plan : BootstrapPlanner) : (s.planRest plan).Nodup := nodup_range.filter _

theorem PlanInv.place (h : PlanInv s targets plan wave) (hin : targets ⊆ Finset.range s.bootstrapCount) :
    PlanInv s targets (plan.place wave (s.planReady plan)) (wave + 1) where
  target := h.target
  edges := h.edges
  total := h.total
  placed i := by
    have hfst : ((s.planReady plan).map (·, wave)).map Prod.fst = s.planReady plan :=
      (map_map ..).trans (map_id _)
    rw [BootstrapPlanner.place, Finset.mem_union, h.placed, mem_toFinset, map_append, hfst, mem_append]
  layered := h.layered.next ((planRest_nodup plan).filter _) (mem_planReady h hin)

theorem PlanInv.ordered_subset (h : PlanInv s targets plan wave) : (plan.order.map Prod.fst).toFinset ⊆ targets := by
  intro i hi
  obtain ⟨w, hw⟩ := mem_placed.mp (List.mem_toFinset.mp hi)
  exact h.layered.inside i w hw

theorem planWaves_spec (hin : targets ⊆ Finset.range s.bootstrapCount) (fuel wave : Nat) (plan : BootstrapPlanner)
    (h : PlanInv s targets plan wave) (hfuel : targets.card < fuel + plan.order.length) :
    ∃ plan', s.planWaves fuel wave plan = some plan' ∧ plan'.isTarget = targets ∧
      Schedule targets (WaitsFor s targets) plan'.order := by
  induction fuel generalizing wave plan with
  | zero =>
    have hcard := Finset.card_le_card h.ordered_subset
    rw [toFinset_card_of_nodup h.layered.once, length_map] at hcard
    omega
  | succ fuel ih =>
    rw [Capypkg.planWaves, h.total]
    split
    next hall =>
      have heq : (plan.order.map Prod.fst).toFinset = targets := by
        refine Finset.eq_of_subset_of_card_le h.ordered_subset ?_
        rwa [toFinset_card_of_nodup h.layered.once, length_map]
      have hfinish : Schedule targets (WaitsFor s targets) (plan.order ++ ([] : List Nat).map (·, wave)) :=
        h.layered.finish nodup_nil (fun i => by rw [← heq, mem_toFinset]; simp) (fun _ hi => nomatch hi)
      rw [map_nil, append_nil] at hfinish
      exact ⟨plan, rfl, h.target, hfinish⟩
    next =>
      split
      next hnone =>
        refine ⟨_, rfl, h.target, h.layered.finish (planRest_nodup plan) (mem_planRest h hin) fun i hi => ?_⟩
        obtain ⟨htarget, hleft⟩ := (mem_planRest h hin i).mp hi
        refine Layered.stuck (fun a _ b hab => hab.1) (fun a ha hleft => ?_) htarget hleft
        by_contra hready
        push Not at hready
        have hmem := (mem_planReady h hin a).mpr ⟨ha, hleft, hready⟩
        rw [hnone] at hmem
        exact nomatch hmem
      next hsome =>
        refine ih (wave + 1) _ (h.place hin) ?_
        have hpos := length_pos_iff.mpr hsome
        rw [BootstrapPlanner.place, length_append, length_map]
        omega

/-! ## The plan -/

theorem planClose_more {fuel : Nat} {closed : Finset Nat} (h : s.planClose fuel targets = some closed)
    (more : Nat) : s.planClose (fuel + more) targets = some closed := by
  induction fuel generalizing targets with
  | zero => exact nomatch h
  | succ fuel ih =>
    rw [Capypkg.planClose] at h
    rw [Nat.add_right_comm, Capypkg.planClose]
    rcases hpass : (range s.bootstrapCount).foldl s.pullDependencies (targets, false) with ⟨t, flag⟩
    rw [hpass] at h
    cases flag with
    | true => exact ih h
    | false => exact h

theorem planWaves_more {fuel wave : Nat} {plan plan' : BootstrapPlanner}
    (h : s.planWaves fuel wave plan = some plan') (more : Nat) : s.planWaves (fuel + more) wave plan = some plan' := by
  induction fuel generalizing wave plan with
  | zero => exact nomatch h
  | succ fuel ih =>
    rw [Capypkg.planWaves] at h
    rw [Nat.add_right_comm, Capypkg.planWaves]
    split
    next hall => rwa [if_pos hall] at h
    next hall =>
      rw [if_neg hall] at h
      split
      next hnone => rwa [if_pos hnone] at h
      next hnone =>
        rw [if_neg hnone] at h
        exact ih h

theorem mem_planSelect (c : BootstrapTables) (p : InstallProfile) (i : Nat) : i ∈ c.tables.planSelect p ↔
    ∃ e, c.tables.available[i]? = some e ∧ (p.kind = .custom → profileInstallListContains p.installList e.name = true) := by
  rw [Capypkg.planSelect, Finset.mem_filter, Option.any_eq_true, Finset.mem_range, count_eq]
  constructor
  · rintro ⟨-, e, he, hin⟩
    refine ⟨e, he, fun hkind => ?_⟩
    simpa [hkind] using hin
  · rintro ⟨e, he, hin⟩
    refine ⟨(List.getElem?_eq_some_iff.mp he).1, e, he, ?_⟩
    by_cases hkind : p.kind = .custom
    · simp [hin hkind]
    · simp [hkind]

def Listed (s : Capypkg) (list : Text) : Set Nat := {i | ∃ e, s.available[i]? = some e ∧ e.name ∈ listedNames list}

def FoundIn (s : Capypkg) (list : Text) : Set Nat :=
  {i | ∃ e, s.available[i]? = some e ∧ profileInstallListContains list e.name = true}

def CutHarmless (s : Capypkg) (list : Text) : Prop :=
  (∀ i e, s.available[i]? = some e → e.name ∈ listedNames list → installProfileNameMax ≤ e.name.length →
    i ∈ closureOf (Depends s) (FoundIn s list)) ∧
  (∀ i e, s.available[i]? = some e → profileInstallListContains list e.name = true → e.name ∉ listedNames list →
    i ∈ closureOf (Depends s) (Listed s list))

theorem cut_harmless_iff (list : Text) :
    closureOf (Depends s) (FoundIn s list) = closureOf (Depends s) (Listed s list) ↔ CutHarmless s list := by
  rw [closureOf_eq_iff, and_comm, CutHarmless]
  refine and_congr ⟨fun h i e he hlisted _ => h ⟨e, he, hlisted⟩, fun h i hi => ?_⟩
    ⟨fun h i e he hfound _ => h ⟨e, he, hfound⟩, fun h i hi => ?_⟩
  · obtain ⟨e, he, hlisted⟩ := hi
    by_cases hlong : installProfileNameMax ≤ e.name.length
    · exact h i e he hlisted hlong
    · exact (isLeast_closureOf _).1.1 ⟨e, he, listed_found hlisted (Nat.lt_of_not_le hlong)⟩
  · obtain ⟨e, he, hfound⟩ := hi
    by_cases hlisted : e.name ∈ listedNames list
    · exact (isLeast_closureOf _).1.1 ⟨e, he, hlisted⟩
    · exact h i e he hfound hlisted

/-- The plan is built, and it is a schedule of its targets. Those of a custom profile are the
least set with the listed packages and what they depend on, where no name is cut in harm. -/
theorem bootstrap_plan (c : BootstrapTables) (p : InstallProfile) :
    ∃ plan, (∀ fuel, capypkgMaxAvailable < fuel → c.tables.bootstrapPlanBuild fuel p = some plan) ∧
      Schedule plan.isTarget (WaitsFor c.tables plan.isTarget) plan.order ∧
      (p.kind ≠ .custom → plan.isTarget = Finset.range c.tables.available.length) ∧
      (p.kind = .custom →
        (IsLeast {T : Set Nat | Listed c.tables p.installList ⊆ T ∧ ∀ i ∈ T, ∀ d, Depends c.tables i d → d ∈ T}
          ↑plan.isTarget ↔ CutHarmless c.tables p.installList)) := by
  have hcount : c.tables.bootstrapCount ≤ capypkgMaxAvailable := Nat.min_le_right _ _
  have hselect : c.tables.planSelect p ⊆ Finset.range c.tables.bootstrapCount := Finset.filter_subset _ _
  -- the targets
  obtain ⟨targets, htargets, hin, hkind⟩ : ∃ targets,
      (∀ fuel, capypkgMaxAvailable < fuel →
        (if p.kind = .custom then c.tables.planClose fuel (c.tables.planSelect p)
          else some (c.tables.planSelect p)) = some targets) ∧ targets ⊆ Finset.range c.tables.bootstrapCount ∧
      (targets : Set Nat) = if p.kind = .custom then closureOf (Depends c.tables) (c.tables.planSelect p)
        else c.tables.planSelect p := by
    by_cases hkind : p.kind = .custom
    · obtain ⟨closed, hclose, hclosed, heq⟩ :=
        planClose_spec c (c.tables.bootstrapCount + 1) (c.tables.planSelect p) hselect (by omega)
      refine ⟨closed, fun fuel hfuel => ?_, hclosed, by rw [if_pos hkind, heq]⟩
      obtain ⟨more, rfl⟩ := Nat.exists_eq_add_of_le (show c.tables.bootstrapCount + 1 ≤ fuel by omega)
      rw [if_pos hkind]
      exact planClose_more hclose more
    · exact ⟨_, fun _ _ => if_neg hkind, hselect, by rw [if_neg hkind]⟩
  -- the waves
  have htotal : ((range c.tables.bootstrapCount).filter fun i =>
      i ∈ targets ∧ (c.tables.available[i]?).isSome).length = targets.card := by
    have hlist : ((range c.tables.bootstrapCount).filter fun i =>
        i ∈ targets ∧ (c.tables.available[i]?).isSome).toFinset = targets := by
      ext i
      rw [mem_toFinset, mem_filter, mem_range, decide_eq_true_eq]
      refine ⟨fun h => h.2.1, fun h => ?_⟩
      have hlt := Finset.mem_range.mp (hin h)
      rw [count_eq] at hlt
      exact ⟨by rwa [count_eq], h, by rw [List.getElem?_eq_getElem hlt]; rfl⟩
    rw [← toFinset_card_of_nodup (nodup_range.filter _), hlist]
  obtain ⟨plan, hplan, rfl, hschedule⟩ := planWaves_spec hin (c.tables.bootstrapCount + 1) 0
    { isTarget := targets
      placed := ∅
      depIdx := c.tables.planEdges targets
      order := []
      targetCount := ((range c.tables.bootstrapCount).filter fun i =>
        i ∈ targets ∧ (c.tables.available[i]?).isSome).length }
    ⟨rfl, fun _ hi _ => mem_planEdges c hi, htotal, fun _ => by simp, .start⟩
    (by
      have hcard := Finset.card_le_card hin
      rw [Finset.card_range] at hcard
      simp only [length_nil]
      omega)
  refine ⟨plan, fun fuel hfuel => ?_, hschedule, fun hother => ?_, fun hcustom => ?_⟩
  · rw [Capypkg.bootstrapPlanBuild, htargets fuel hfuel]
    obtain ⟨more, rfl⟩ := Nat.exists_eq_add_of_le (show c.tables.bootstrapCount + 1 ≤ fuel by omega)
    exact planWaves_more hplan more
  · rw [if_neg hother, Finset.coe_inj] at hkind
    rw [hkind]
    ext i
    rw [mem_planSelect, Finset.mem_range]
    constructor
    · rintro ⟨e, he, -⟩
      exact (List.getElem?_eq_some_iff.mp he).1
    · intro hlt
      exact ⟨_, List.getElem?_eq_getElem hlt, fun hcustom => absurd hcustom hother⟩
  · have hfound : (c.tables.planSelect p : Set Nat) = FoundIn c.tables p.installList := by
      ext i
      rw [Finset.mem_coe, mem_planSelect]
      exact exists_congr fun e => and_congr_right fun _ => ⟨fun h => h hcustom, fun h _ => h⟩
    rw [if_pos hcustom, hfound] at hkind
    rw [hkind, ← cut_harmless_iff]
    exact ⟨fun h => h.unique (isLeast_closureOf _), fun h => h ▸ isLeast_closureOf _⟩

def longNamed : CapypkgEntry :=
  { name := replicate installProfileNameMax 'a', version := "1.0.0".toList, summary := [],
    sourceRepo := "main".toList, payloadUrl := "https://x/a".toList, payloadSha256 := [], signatureHex := [],
    installRoot := "/opt/a".toList, providesAbi := [], abiVersion := [], deps := [], sizeBytes := 1,
    coreAbiMin := 0, coreAbiMax := 0, knownGood := 0, catalogAuthenticated := false }

def longTables : BootstrapTables where
  tables := { initialized := true, repos := [], installed := [], available := [longNamed],
              files := fun _ => none, calls := [] }
  available := by decide
  deps := by simp [longNamed]

def longProfile : InstallProfile :=
  ⟨.custom, "main".toList, "https://x".toList, false, longNamed.name, true⟩

theorem long_name_not_planned :
    0 ∈ Listed longTables.tables longProfile.installList ∧
    (longTables.tables.bootstrapPlanBuild (capypkgMaxAvailable + 1) longProfile).map (·.order) = some [] ∧
    (longTables.tables.bootstrapPlanBuild (capypkgMaxAvailable + 1) longProfile).map (·.isTarget) = some ∅ := by
  refine ⟨⟨longNamed, rfl, ?_⟩, ?_, ?_⟩ <;> decide

end CapyOS.Proofs
