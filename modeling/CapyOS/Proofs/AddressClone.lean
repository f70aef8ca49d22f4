import CapyOS.Memory.AddressSpace

namespace CapyOS.Proofs
open Lib List Option

/-! ### What the clone keeps -/

theorem shared_user (e : LeafEntry) : (e.shared.user && !e.shared.huge) = (e.user && !e.huge) := by
  unfold LeafEntry.shared
  split <;> rfl

mutual

theorem clonePtEntry_userLeaves {e d s : PageEntry} {m m' : FrameState}
    (h : clonePtEntry m e = some (m', d, s)) : d.userLeaves = e.userLeaves := by
  match e with
  | .absent =>
    obtain ⟨-, rfl, -⟩ := by simpa [clonePtEntry] using h
    rfl
  | .leaf e =>
    obtain ⟨-, rfl, -⟩ := by simpa [clonePtEntry] using h
    rw [PageEntry.userLeaves, PageEntry.userLeaves, shared_user]
  | .table entries =>
    rw [clonePtEntry] at h
    split at h
    · cases h
    split at h
    · cases h
    rename_i m₁ _ m₂ dst src hinto
    obtain ⟨-, rfl, -⟩ := by simpa using h
    rw [PageEntry.userLeaves, PageEntry.userLeaves]
    exact clonePtInto_userLeaves hinto

theorem clonePtInto_userLeaves {es ds ss : List PageEntry} {m m' : FrameState}
    (h : clonePtInto m es = some (m', ds, ss)) : entriesUserLeaves ds = entriesUserLeaves es := by
  match es with
  | [] =>
    obtain ⟨-, rfl, -⟩ := by simpa [clonePtInto] using h
    rfl
  | e :: es =>
    rw [clonePtInto] at h
    split at h
    · cases h
    rename_i m₁ d s hentry
    split at h
    · cases h
    rename_i m₂ ds' ss' hrest
    obtain ⟨-, rfl, -⟩ := by simpa using h
    rw [entriesUserLeaves, entriesUserLeaves, clonePtEntry_userLeaves hentry, clonePtInto_userLeaves hrest]

end

/-- The user leaves under an entry of the PML4. -/
def slotLeaves (t : Option (List PageEntry)) : Nat := (t.map entriesUserLeaves).getD 0

theorem clonePml4_userLeaves {src dst ds ss : List (Option (List PageEntry))} {m m' : FrameState}
    (hlen : src.length = dst.length) (hfresh : ∀ t ∈ dst, slotLeaves t = 0) (h : clonePml4 m src dst = some (m', ds, ss)) :
    (ds.map slotLeaves).sum = (src.map slotLeaves).sum := by
  induction src generalizing dst ds ss m m' with
  | nil =>
    obtain ⟨-, rfl, -⟩ := by simpa [clonePml4] using h
    rfl
  | cons t src ih =>
    match dst with
    | [] => simp at hlen
    | fresh :: dst =>
      rw [forall_mem_cons] at hfresh
      have hlen' : src.length = dst.length := by simpa using hlen
      match t with
      | none =>
        rw [clonePml4] at h
        split at h
        · cases h
        rename_i m₁ ds' ss' hrest
        obtain ⟨-, rfl, -⟩ := by simpa using h
        rw [map_cons, sum_cons, map_cons, sum_cons, ih hlen' hfresh.2 hrest, hfresh.1]
        rfl
      | some pdpt =>
        rw [clonePml4] at h
        split at h
        · cases h
        split at h
        · cases h
        rename_i m₁ _ m₂ d s hinto
        split at h
        · cases h
        rename_i m₃ ds' ss' hrest
        obtain ⟨-, rfl, -⟩ := by simpa using h
        rw [map_cons, sum_cons, map_cons, sum_cons, ih hlen' hfresh.2 hrest]
        congr 1
        exact clonePtInto_userLeaves hinto

/-- The clone of the kernel's low tables maps nothing for the user. -/
def KernelOnly (low : Option (List PageEntry)) : Prop := slotLeaves low = 0

theorem created_length (low : Option (List PageEntry)) : (vmmCreateAddressSpace low).pml4.length = pml4UserEntries := by
  have hfresh : (vmmCreateAddressSpace low).pml4 =
      low :: replicate (pml4UserEntries - 1) none := rfl
  rw [hfresh, length_cons, length_replicate]
  rfl

section
variable {m m' : FrameState} {low : Option (List PageEntry)} {src src' child : UserTables}

theorem clone_fields (h : vmmCloneAddressSpace m low src = some (m', child, src')) :
    child.anonRegions = [] ∧ child.rssPages = src.rssPages := by
  unfold vmmCloneAddressSpace at h
  simp only at h
  split at h
  · cases h
  · obtain ⟨-, rfl, -⟩ := by simpa using h
    exact ⟨rfl, rfl⟩

theorem clone_userLeaves (hlen : src.pml4.length = pml4UserEntries) (hlow : KernelOnly low)
    (h : vmmCloneAddressSpace m low src = some (m', child, src')) : child.userLeaves = src.userLeaves := by
  unfold vmmCloneAddressSpace at h
  simp only at h
  split at h
  · cases h
  · rename_i hclone
    obtain ⟨-, rfl, -⟩ := by simpa using h
    refine clonePml4_userLeaves ?_ ?_ hclone
    · rw [hlen, created_length]
    · intro t ht
      rw [vmmCreateAddressSpace, mem_cons] at ht
      rcases ht with rfl | ht
      · exact hlow
      · obtain rfl := eq_of_mem_replicate ht
        rfl

end

/-! ### Faults -/

theorem entryAt_blank (n i : Nat) : entryAt (replicate n .absent) i = .absent := by
  rw [entryAt, getD_eq_getElem?_getD, List.getElem?_replicate]
  split <;> rfl

theorem leafAt_blank (n : Nat) (path : List Nat) : leafAt path (replicate n .absent) = none := by
  cases path with
  | nil => rfl
  | cons i path => simp only [leafAt, entryAt_blank]

/-- With a frame for each table on the way a page that is not present can be mapped. -/
theorem mapInto_isSome {e : LeafEntry} {path : List Nat} {es : List PageEntry} {free : List Nat}
    (hpath : path ≠ []) (habsent : leafAt path es = none) (hroom : path.length ≤ free.length + 1) :
    (mapInto e path es free).isSome = true := by
  induction path generalizing es free with
  | nil => exact absurd rfl hpath
  | cons i path ih =>
    cases path with
    | nil => rfl
    | cons j path =>
      have hlen : (j :: path).length ≤ free.length := by simpa using hroom
      rw [leafAt] at habsent
      unfold mapInto
      cases hentry : entryAt es i with
      | leaf e' => simp [hentry] at habsent
      | table entries =>
        simp only [hentry] at habsent
        have hrest := @ih entries free (by simp) habsent (by omega)
        obtain ⟨x, hx⟩ := isSome_iff_exists.mp hrest
        simp [hx]
      | absent =>
        match free with
        | [] => simp at hlen
        | f :: rest =>
          have hrest := @ih (replicate pageEntries .absent) rest (by simp) (leafAt_blank _ _)
            (by simpa using hlen)
          obtain ⟨x, hx⟩ := isSome_iff_exists.mp hrest
          simp [hx]

theorem tablePath_page (a : Nat) : tablePath (a / vmmPageSize * vmmPageSize) = tablePath a := by
  simp only [tablePath, vmmPageSize]
  refine congrArg₂ List.cons (by omega)
    (congrArg₂ List.cons (by omega) (congrArg₂ List.cons ?_ rfl))
  omega

theorem pml4_page (a : Nat) : a / vmmPageSize * vmmPageSize / 2 ^ 39 = a / 2 ^ 39 := by
  simp only [vmmPageSize]
  omega

/-- A fault in a region is serviced when four frames are left. -/
theorem fault_serviced {as : UserTables} {addr : Nat} {r : AnonRegion} {f₀ f₁ f₂ f₃ : Nat}
    (habsent : as.leaf addr = none) (hfind : vmmAnonRegionFind as addr = some r) :
    (vmmHandlePageFault as addr [f₀, f₁, f₂, f₃]).isSome = true := by
  have hmap (phys : Nat) (flags : PageFlags) :
      (as.mapPage (addr / vmmPageSize * vmmPageSize) phys flags [f₁, f₂, f₃]).isSome = true := by
    rw [UserTables.leaf] at habsent
    cases hslot : as.pml4.getD (addr / 2 ^ 39 % 512) none with
    | none =>
      have hsome := @mapInto_isSome ⟨phys, flags.user, flags.write, flags.noExec, false, false⟩
        (tablePath addr) (replicate pageEntries .absent) [f₂, f₃] (by simp [tablePath])
        (leafAt_blank _ _) (by simp [tablePath])
      obtain ⟨x, hx⟩ := isSome_iff_exists.mp hsome
      simp only [UserTables.mapPage, pml4_page, tablePath_page, hslot, hx, isSome_some]
    | some pdpt =>
      rw [hslot] at habsent
      have hsome := @mapInto_isSome ⟨phys, flags.user, flags.write, flags.noExec, false, false⟩
        (tablePath addr) pdpt [f₁, f₂, f₃] (by simp [tablePath]) habsent (by simp [tablePath])
      obtain ⟨x, hx⟩ := isSome_iff_exists.mp hsome
      simp only [UserTables.mapPage, pml4_page, tablePath_page, hslot, hx, isSome_some]
  rw [vmmHandlePageFault, hfind]
  simp only
  obtain ⟨x, hx⟩ := isSome_iff_exists.mp (hmap f₀ r.flags)
  simp [hx]

/-- The flags and the contents a serviced fault gives the page. -/
def servicedPage (as : UserTables) (addr : Nat) (free : List Nat) : Option (PageFlags × Bytes) :=
  (vmmHandlePageFault as addr free).map fun f => (f.flags, f.page)

/-- A fault on a page that is not present ends alike in the clone and in the source,
whatever frames are left. -/
def FaultsAlike (src child : UserTables) : Prop :=
  ∀ addr < vmmUserTop, src.leaf addr = none →
    ∀ free, servicedPage child addr free = servicedPage src addr free

/-- No region of the registry has a page left to fault on. -/
def RegionsPresent (as : UserTables) : Prop :=
  ∀ addr < vmmUserTop, as.leaf addr = none → vmmAnonRegionFind as addr = none

theorem fault_outside {as : UserTables} {addr : Nat} (h : vmmAnonRegionFind as addr = none)
    (free : List Nat) : servicedPage as addr free = none := by
  rw [servicedPage, vmmHandlePageFault, h]
  rfl

/-- A fork is transparent to demand paging exactly when no region of the parent has a page
that is not present yet, and counts the clone's pages exactly when it counts the parent's. -/
theorem fork_transparent_iff (m m' : FrameState) (low : Option (List PageEntry))
    (src src' child : UserTables) (hlen : src.pml4.length = pml4UserEntries) (hlow : KernelOnly low)
    (h : vmmCloneAddressSpace m low src = some (m', child, src')) :
    (FaultsAlike src child ∧ child.rssPages = child.userLeaves) ↔
      (RegionsPresent src ∧ src.rssPages = src.userLeaves) := by
  obtain ⟨hregions, hrss⟩ := clone_fields h
  have hchild (addr : Nat) : vmmAnonRegionFind child addr = none := by
    rw [vmmAnonRegionFind, hregions]
    rfl
  rw [hrss, clone_userLeaves hlen hlow h]
  refine and_congr_left fun _ => ⟨fun hall addr hlt habsent => ?_,
    fun hall addr hlt habsent free => ?_⟩
  · cases hfind : vmmAnonRegionFind src addr with
    | none => rfl
    | some r =>
      -- with frames to spare the source services the fault, and the clone never does
      have hsome := @fault_serviced src addr r 0x1000 0x2000 0x3000 0x4000 habsent hfind
      have heq := hall addr hlt habsent [0x1000, 0x2000, 0x3000, 0x4000]
      rw [fault_outside (hchild addr), servicedPage, eq_comm, map_eq_none_iff] at heq
      rw [heq] at hsome
      cases hsome
  · rw [fault_outside (hchild addr), fault_outside (hall addr hlt habsent)]

/-- The tables of a new process, empty below the first entry of the PML4. -/
def blankLow : Option (List PageEntry) := some (replicate pageEntries .absent)

/-- A parent with one demand page registered for its stack and nothing mapped. -/
def stackParent : UserTables :=
  { vmmCreateAddressSpace blankLow with
    anonRegions := [⟨0x10000, 0x11000, ⟨true, true, true⟩⟩] }

theorem blankLow_kernelOnly : KernelOnly blankLow := by
  rw [KernelOnly]
  decide +kernel

theorem stackParent_cloned : (vmmCloneAddressSpace ⟨[0x5000], fun _ => 0⟩ blankLow stackParent).isSome = true := by
  decide +kernel

theorem stackParent_absent : stackParent.leaf 0x10000 = none :=
  leafAt_blank _ _

/-- The clone does not service the page the parent would have been given. -/
theorem fork_drops_stack :
    ∃ m' src' child, vmmCloneAddressSpace ⟨[0x5000], fun _ => 0⟩ blankLow stackParent =
      some (m', child, src') ∧ ¬FaultsAlike stackParent child := by
  obtain ⟨⟨m', child, src'⟩, h⟩ := isSome_iff_exists.mp stackParent_cloned
  refine ⟨m', src', child, h, fun hall => ?_⟩
  have hregion : vmmAnonRegionFind child 0x10000 = none := by
    rw [vmmAnonRegionFind, (clone_fields h).1]
    rfl
  have heq := hall 0x10000 (by decide) stackParent_absent [0x6000, 0x7000, 0x8000, 0x9000]
  have hsome := @fault_serviced stackParent 0x10000 _ 0x6000 0x7000 0x8000 0x9000 stackParent_absent
    (show vmmAnonRegionFind stackParent 0x10000 = some ⟨0x10000, 0x11000, ⟨true, true, true⟩⟩ by
      decide)
  rw [fault_outside hregion, servicedPage, eq_comm, map_eq_none_iff] at heq
  rw [heq] at hsome
  cases hsome

theorem regionless_fork_transparent :
    ∃ m' src' child, vmmCloneAddressSpace ⟨[0x5000], fun _ => 0⟩ blankLow
        (vmmCreateAddressSpace blankLow) = some (m', child, src') ∧
      FaultsAlike (vmmCreateAddressSpace blankLow) child ∧ child.rssPages = child.userLeaves := by
  obtain ⟨⟨m', child, src'⟩, h⟩ := isSome_iff_exists.mp
    (show (vmmCloneAddressSpace ⟨[0x5000], fun _ => 0⟩ blankLow
      (vmmCreateAddressSpace blankLow)).isSome = true by decide +kernel)
  have hiff := fork_transparent_iff ⟨[0x5000], fun _ => 0⟩ m' blankLow
    (vmmCreateAddressSpace blankLow)
    src' child (created_length _) blankLow_kernelOnly h
  exact ⟨m', src', child, h, hiff.mpr ⟨fun _ _ _ => rfl, by decide +kernel⟩⟩

end CapyOS.Proofs
