import CapyOS.Proofs.CapypkgInstall

namespace CapyOS.Proofs
open Capypkg List

def Topological (names : List Text) : List CapypkgEntry → Prop
  | [] => True
  | e :: es => (∀ d ∈ e.deps, d ≠ [] → d ∈ names) ∧ Topological (names ++ [e.name]) es

theorem Topological.append {names : List Text} {xs ys : List CapypkgEntry} (h : Topological names xs)
    (h' : Topological (names ++ xs.map CapypkgEntry.name) ys) : Topological names (xs ++ ys) := by
  induction xs generalizing names with
  | nil => simpa using h'
  | cons x xs ih => exact ⟨h.1, ih h.2 (by simpa using h')⟩

theorem Topological.mem {names : List Text} {es : List CapypkgEntry} (h : Topological names es) {e : CapypkgEntry}
    (he : e ∈ es) {d : Text} (hd : d ∈ e.deps) (hne : d ≠ []) : d ∈ names ++ es.map CapypkgEntry.name := by
  induction es generalizing names with
  | nil => exact absurd he not_mem_nil
  | cons x es ih =>
    cases mem_cons.mp he with
    | inl hx =>
      subst hx
      exact mem_append_left _ (h.1 d hd hne)
    | inr hes => simpa using ih h.2 hes

theorem Topological.no_cycle {names : List Text} {es : List CapypkgEntry} (h : Topological names es)
    {C : Text → Prop} (hout : ∀ n ∈ names, ¬ C n)
    (hnext : ∀ e ∈ es, C e.name → ∃ d ∈ e.deps, d ≠ [] ∧ C d) : ∀ e ∈ es, ¬ C e.name := by
  induction es generalizing names with
  | nil => exact fun _ he => absurd he not_mem_nil
  | cons x es ih =>
    have hx : ¬ C x.name := by
      intro hc
      obtain ⟨d, hd, hne, hcd⟩ := hnext x mem_cons_self hc
      exact hout d (h.1 d hd hne) hcd
    have hrest := ih h.2 (fun n hn => by
      cases mem_append.mp hn with
      | inl hn => exact hout n hn
      | inr hn => exact mem_singleton.mp hn ▸ hx) fun e he => hnext e (mem_cons_of_mem x he)
    intro e he
    cases mem_cons.mp he with
    | inl he => exact he ▸ hx
    | inr he => exact hrest e he

def DepsInstalled (s : Capypkg) (e : CapypkgEntry) : Prop := ∀ d ∈ e.deps, d ≠ [] → d ∈ installedNames s

structure Grew (s s' : Capypkg) : Prop where
  available : s'.available = s.available
  repos : s'.repos = s.repos
  initialized : s'.initialized = s.initialized
  members : ∀ f ∈ s'.installed, f ∈ s.installed ∨ f ∈ s.available
  added : ∃ es : List CapypkgEntry, installedNames s' = installedNames s ++ es.map CapypkgEntry.name ∧
    Topological (installedNames s) es ∧
    ∀ e ∈ es, s.findAvailable e.name = some e ∧ e.name ∉ installedNames s

section
variable {s s' s'' : Capypkg} {e : CapypkgEntry}

theorem Grew.refl (s : Capypkg) : Grew s s := ⟨rfl, rfl, rfl, fun _ hf => .inl hf, [], by simp, trivial, fun _ he => absurd he not_mem_nil⟩

theorem Grew.trans (h : Grew s s') (h' : Grew s' s'') : Grew s s'' := by
  obtain ⟨es, hnames, htop, hes⟩ := h.added
  obtain ⟨fs, hnames', htop', hfs⟩ := h'.added
  refine ⟨h'.available.trans h.available, h'.repos.trans h.repos, h'.initialized.trans h.initialized, ?_, es ++ fs, ?_, ?_, ?_⟩
  · intro f hf
    cases h'.members f hf with
    | inl hf => exact h.members f hf
    | inr hf => exact .inr (h.available ▸ hf)
  · rw [hnames', hnames, map_append, append_assoc]
  · exact htop.append (hnames ▸ htop')
  · intro e he
    cases mem_append.mp he with
    | inl he => exact hes e he
    | inr he =>
      obtain ⟨hav, hnot⟩ := hfs e he
      rw [SameTables.findAvailable h.available] at hav
      exact ⟨hav, fun hn => hnot (hnames ▸ mem_append_left _ hn)⟩

theorem Grew.stays (h : Grew s s') {n : Text} (hn : n ∈ installedNames s) : n ∈ installedNames s' := by
  obtain ⟨es, hnames, _⟩ := h.added
  exact hnames ▸ mem_append_left _ hn

/-- The install of a package whose dependencies are there. -/
theorem TablesCommitted.grew {r : CapypkgResult × Capypkg} (h : TablesCommitted s e r) (hav : s.findAvailable e.name = some e)
    (hdeps : DepsInstalled s e) : Grew s r.2 ∧ (r.1 = .ok → e.name ∈ installedNames r.2) := by
  have hmem : e ∈ s.available := by
    unfold Capypkg.findAvailable at hav
    split at hav
    · exact absurd hav (nomatch ·)
    · exact List.mem_of_find?_eq_some hav
  have hmembers : ∀ f ∈ r.2.installed, f ∈ s.installed ∨ f ∈ s.available :=
    fun f hf => (h.members f hf).imp_right fun (he : f = e) => he.symm ▸ hmem
  by_cases hok : r.1 = .ok
  · obtain ⟨hin, hnames⟩ | ⟨hnot, hnames⟩ := h.done hok
    · refine ⟨⟨h.available, h.repos, h.initialized, hmembers, [], by simpa using hnames, trivial, ?_⟩, fun _ => hnames ▸ hin⟩
      exact fun _ he => absurd he not_mem_nil
    · refine ⟨⟨h.available, h.repos, h.initialized, hmembers, [e], by simpa using hnames, ⟨hdeps, trivial⟩, ?_⟩, fun _ => ?_⟩
      · intro f hf
        rw [mem_singleton.mp hf]
        exact ⟨hav, hnot⟩
      · rw [hnames]
        exact mem_append_right _ (mem_singleton.mpr rfl)
  · refine ⟨⟨h.available, h.repos, h.initialized, hmembers, [], ?_, trivial, fun _ he => absurd he not_mem_nil⟩, fun he => absurd he hok⟩
    rw [installedNames, h.undone hok, installedNames, map_nil, append_nil]

def InstallSpec (install : Capypkg → Text → Option (CapypkgResult × Capypkg)) : Prop :=
  ∀ s name rc s', install s name = some (rc, s') →
    Grew s s' ∧ (rc = .ok ∨ rc = .already → name ∈ installedNames s')

def DepsSpec (dependencies : CapypkgEntry → Capypkg → Option (CapypkgResult × Capypkg)) : Prop :=
  ∀ e s rc s', dependencies e s = some (rc, s') → Grew s s' ∧ rc ≠ .already ∧ (rc = .ok → DepsInstalled s' e)

theorem loop_spec {install : Capypkg → Text → Option (CapypkgResult × Capypkg)}
    {dependencies : CapypkgEntry → Capypkg → Option (CapypkgResult × Capypkg)} (hi : InstallSpec install)
    (hd : DepsSpec dependencies) (deps : List Text) {s s' : Capypkg} {rc : CapypkgResult}
    (h : dependencyLoop install dependencies deps s = some (rc, s')) :
    Grew s s' ∧ rc ≠ .already ∧ (rc = .ok → ∀ d ∈ deps, d ≠ [] → d ∈ installedNames s') := by
  induction deps generalizing s with
  | nil =>
    cases h
    exact ⟨Grew.refl _, (nomatch ·), fun _ d hd => absurd hd not_mem_nil⟩
  | cons dep deps ih =>
    -- the rest of the loop, once this dependency is seen to
    have hrest {t : Capypkg} (ht : Grew s t) (hdep : dep ≠ [] → dep ∈ installedNames t)
        (h : dependencyLoop install dependencies deps t = some (rc, s')) :
        Grew s s' ∧ rc ≠ .already ∧ (rc = .ok → ∀ d ∈ dep :: deps, d ≠ [] → d ∈ installedNames s') := by
      obtain ⟨hg, hna, hall⟩ := ih h
      refine ⟨ht.trans hg, hna, ?_⟩
      intro hok d hd hne
      cases mem_cons.mp hd with
      | inl heq => exact hg.stays (heq ▸ hdep (heq ▸ hne))
      | inr hm => exact hall hok d hm hne
    unfold Capypkg.dependencyLoop at h
    split at h
    next hempty => exact hrest (Grew.refl s) (fun hne => absurd hempty hne) h
    next hne =>
      split at h
      next hin => exact hrest (Grew.refl s) (fun _ => (find_installed hne).mp hin) h
      next =>
        split at h
        next =>
          cases h
          exact ⟨Grew.refl _, (nomatch ·), fun hok => absurd hok (nomatch ·)⟩
        next avail hav =>
          split at h
          next => exact absurd h (nomatch ·)
          next t ht =>
            obtain ⟨hg, _⟩ := hd avail s .ok t ht
            split at h
            next => exact absurd h (nomatch ·)
            next rc' u hu =>
              obtain ⟨hg', hin⟩ := hi t dep rc' u hu
              split at h
              next hor => exact hrest (hg.trans hg') (fun _ => hin hor) h
              next hor =>
                cases h
                exact ⟨hg.trans hg', fun hal => hor (.inr hal), fun hok => absurd (.inl hok) hor⟩
          next rc' t hok ht =>
            obtain ⟨hg, hna, _⟩ := hd avail s rc' t ht
            cases h
            exact ⟨hg, hna, fun he => absurd he fun he => hok he⟩

theorem dependencies_spec {install : Capypkg → Text → Option (CapypkgResult × Capypkg)} (hi : InstallSpec install)
    (budget : Nat) : DepsSpec (installDependencies install budget) := by
  induction budget with
  | zero =>
    intro e s rc s' h
    cases h
    exact ⟨Grew.refl _, (nomatch ·), fun hok => absurd hok (nomatch ·)⟩
  | succ budget ih =>
    intro e s rc s' h
    exact loop_spec hi ih e.deps h

theorem install_spec (env : CapypkgEnv) (serialize : List CapypkgEntry → Text) (calls : Nat) :
    InstallSpec (install env serialize calls) := by
  induction calls with
  | zero =>
    intro s name rc s' h
    exact absurd h (nomatch ·)
  | succ calls ih =>
    intro s name rc s' h
    unfold Capypkg.install at h
    have hfail {rc' : CapypkgResult} (hok : ¬(rc' = .ok ∨ rc' = .already)) (h : some (rc', s) = some (rc, s')) :
        Grew s s' ∧ (rc = .ok ∨ rc = .already → name ∈ installedNames s') := by
      cases h
      exact ⟨Grew.refl _, fun hor => absurd hor hok⟩
    split at h
    next => exact hfail (by simp) h
    next =>
      split at h
      next => exact hfail (by simp) h
      next hne =>
        split at h
        next => exact hfail (by simp) h
        next avail hav =>
          obtain ⟨_, hname⟩ := find_available hav
          split at h
          next hsame =>
            cases h
            refine ⟨Grew.refl s, fun _ => (find_installed hne).mp ?_⟩
            cases hf : s.findInstalled name with
            | none =>
              rw [hf] at hsame
              exact absurd hsame (by simp)
            | some => rfl
          next =>
            split at h
            next => exact hfail (by simp) h
            next =>
              split at h
              next => exact absurd h (nomatch ·)
              next t ht =>
                obtain ⟨hg, _, hdeps⟩ := dependencies_spec ih 8 avail s .ok t ht
                have hc := installPayload_spec env serialize t avail (s.findInstalled name).isSome
                have hav' : t.findAvailable avail.name = some avail := by
                  rw [SameTables.findAvailable hg.available, hname]
                  exact hav
                obtain ⟨hg', hin⟩ := hc.grew hav' (hdeps rfl)
                have he := Option.some.inj h
                have hfresh := hc.fresh
                rw [he] at hg' hin hfresh
                refine ⟨hg.trans hg', ?_⟩
                rintro (hok | hal)
                · exact hname ▸ hin hok
                · exact absurd hal hfresh
              next rc' t hok ht =>
                obtain ⟨hg, hna, _⟩ := dependencies_spec ih 8 avail s rc' t ht
                cases h
                refine ⟨hg, ?_⟩
                rintro (hok' | hal)
                · exact absurd hok' fun he => hok he
                · exact absurd hal hna

def InstallEnds (install : Capypkg → Text → Option (CapypkgResult × Capypkg)) : Prop :=
  ∀ s name, (∀ e, s.findAvailable name = some e → DepsInstalled s e) → install s name ≠ none

theorem loop_ends {install : Capypkg → Text → Option (CapypkgResult × Capypkg)}
    {dependencies : CapypkgEntry → Capypkg → Option (CapypkgResult × Capypkg)} (hi : InstallEnds install)
    (hd : DepsSpec dependencies) (hends : ∀ e s, dependencies e s ≠ none) (deps : List Text) (s : Capypkg) :
    dependencyLoop install dependencies deps s ≠ none := by
  induction deps generalizing s with
  | nil => exact (nomatch ·)
  | cons dep deps ih =>
    unfold Capypkg.dependencyLoop
    split
    · exact ih s
    · split
      · exact ih s
      · split
        · exact (nomatch ·)
        next avail hav =>
          split
          next hnone => exact absurd hnone (hends avail s)
          next t ht =>
            obtain ⟨hg, _, hall⟩ := hd avail s .ok t ht
            have hready : ∀ e, t.findAvailable dep = some e → DepsInstalled t e := by
              intro e he
              rw [SameTables.findAvailable hg.available, hav] at he
              cases he
              exact hall rfl
            split
            next hnone => exact absurd hnone (hi t dep hready)
            next =>
              split
              · exact ih _
              · exact (nomatch ·)
          next => exact (nomatch ·)

theorem dependencies_ends {install : Capypkg → Text → Option (CapypkgResult × Capypkg)} (hi : InstallEnds install)
    (hs : InstallSpec install) (budget : Nat) (e : CapypkgEntry) (s : Capypkg) :
    installDependencies install budget e s ≠ none := by
  induction budget generalizing e s with
  | zero => exact (nomatch ·)
  | succ budget ih => exact loop_ends hi (dependencies_spec hs budget) ih e.deps s

theorem loop_idle (install : Capypkg → Text → Option (CapypkgResult × Capypkg))
    (dependencies : CapypkgEntry → Capypkg → Option (CapypkgResult × Capypkg)) {deps : List Text} {s : Capypkg}
    (h : ∀ d ∈ deps, d ≠ [] → d ∈ installedNames s) : dependencyLoop install dependencies deps s = some (.ok, s) := by
  induction deps with
  | nil => rfl
  | cons dep deps ih =>
    have hrest := ih fun d hd => h d (mem_cons_of_mem dep hd)
    unfold Capypkg.dependencyLoop
    split
    · exact hrest
    next hne =>
      rw [if_pos ((find_installed hne).mpr (h dep mem_cons_self hne))]
      exact hrest

variable (env : CapypkgEnv) (serialize : List CapypkgEntry → Text)

theorem install_ends (calls : Nat) : InstallEnds (install env serialize (calls + 1)) := by
  intro s name hready
  unfold Capypkg.install
  split
  · exact (nomatch ·)
  · split
    · exact (nomatch ·)
    · split
      · exact (nomatch ·)
      next avail hav =>
        split
        · exact (nomatch ·)
        · split
          · exact (nomatch ·)
          · have hidle : installDependencies (install env serialize calls) 8 avail s = some (.ok, s) :=
              loop_idle _ _ (hready avail hav)
            rw [hidle]
            exact (nomatch ·)

theorem install_total (calls : Nat) (s : Capypkg) (name : Text) : install env serialize (calls + 2) s name ≠ none := by
  unfold Capypkg.install
  split
  · exact (nomatch ·)
  · split
    · exact (nomatch ·)
    · split
      · exact (nomatch ·)
      next avail _ =>
        split
        · exact (nomatch ·)
        · split
          · exact (nomatch ·)
          · split
            next hnone =>
              exact absurd hnone (dependencies_ends (install_ends env serialize calls)
                (install_spec env serialize (calls + 1)) 8 avail s)
            next => exact (nomatch ·)
            next => exact (nomatch ·)

def EndsAlike (f g : Capypkg → Text → Option (CapypkgResult × Capypkg)) : Prop :=
  ∀ s name r, f s name = some r → g s name = some r

theorem loop_extends {f g : Capypkg → Text → Option (CapypkgResult × Capypkg)}
    {d d' : CapypkgEntry → Capypkg → Option (CapypkgResult × Capypkg)} (hf : EndsAlike f g)
    (hd : ∀ e s r, d e s = some r → d' e s = some r) (deps : List Text) {s : Capypkg} {r : CapypkgResult × Capypkg}
    (h : dependencyLoop f d deps s = some r) : dependencyLoop g d' deps s = some r := by
  induction deps generalizing s with
  | nil => exact h
  | cons dep deps ih =>
    unfold Capypkg.dependencyLoop at h ⊢
    split at h
    next he =>
      rw [if_pos he]
      exact ih h
    next he =>
      rw [if_neg he]
      split at h
      next hin =>
        rw [if_pos hin]
        exact ih h
      next hin =>
        rw [if_neg hin]
        split at h
        next hav => exact h
        next avail hav =>
          split at h
          next => exact absurd h (nomatch ·)
          next t ht =>
            rw [hd avail s _ ht]
            dsimp only
            split at h
            next => exact absurd h (nomatch ·)
            next rc u hu =>
              rw [hf t dep _ hu]
              dsimp only
              split at h
              next hor =>
                rw [if_pos hor]
                exact ih h
              next hor =>
                rw [if_neg hor]
                exact h
          next rc t hok ht =>
            rw [hd avail s _ ht]
            cases rc <;> first | exact h | exact absurd rfl hok

theorem dependencies_extends {f g : Capypkg → Text → Option (CapypkgResult × Capypkg)} (hf : EndsAlike f g)
    (budget : Nat) (e : CapypkgEntry) (s : Capypkg) (r : CapypkgResult × Capypkg)
    (h : installDependencies f budget e s = some r) : installDependencies g budget e s = some r := by
  induction budget generalizing e s r with
  | zero => exact h
  | succ budget ih => exact loop_extends hf ih e.deps h

theorem install_extends (calls : Nat) : EndsAlike (install env serialize calls) (install env serialize (calls + 1)) := by
  induction calls with
  | zero => exact fun _ _ _ h => absurd h (nomatch ·)
  | succ calls ih =>
    intro s name r h
    rw [Capypkg.install] at h ⊢
    split at h
    next hc =>
      rw [if_pos hc]
      exact h
    next hc =>
      rw [if_neg hc]
      split at h
      next hc =>
        rw [if_pos hc]
        exact h
      next hc =>
        rw [if_neg hc]
        split at h
        next => exact h
        next avail _ =>
          split at h
          next hc =>
            rw [if_pos hc]
            exact h
          next hc =>
            rw [if_neg hc]
            split at h
            next hc =>
              rw [if_pos hc]
              exact h
            next hc =>
              rw [if_neg hc]
              split at h
              next => exact absurd h (nomatch ·)
              next t ht =>
                rw [dependencies_extends ih 8 avail s _ ht]
                exact h
              next rc t hok ht =>
                rw [dependencies_extends ih 8 avail s _ ht]
                cases rc <;> first | exact h | exact absurd rfl hok

theorem install_enough (calls : Nat) (s : Capypkg) (name : Text) :
    install env serialize (calls + 2) s name = install env serialize 2 s name := by
  induction calls with
  | zero => rfl
  | succ calls ih =>
    obtain ⟨r, hr⟩ := Option.ne_none_iff_exists'.mp (install_total env serialize calls s name)
    rw [← ih, hr]
    exact install_extends env serialize (calls + 2) s name r hr

end

/-- A package in the catalog names the other as a dependency, and neither is installed. -/
def Needs (s : Capypkg) (a b : Text) : Prop :=
  a ∉ installedNames s ∧ b ∉ installedNames s ∧ b ≠ [] ∧ ∃ e, s.findAvailable a = some e ∧ b ∈ e.deps

/-- `capypkg_install` comes to an end for every catalog and every behaviour of the callbacks;
what it adds to the table has its dependencies there; and if the package it is asked for
needs itself, nothing on such a cycle is installed. -/
theorem install_well_founded (env : CapypkgEnv) (serialize : List CapypkgEntry → Text) (s : Capypkg) (name : Text) :
    ∃ rc s', (∀ calls, install env serialize (calls + 2) s name = some (rc, s')) ∧
      (∀ n ∈ installedNames s', n ∉ installedNames s → ∃ e, s.findAvailable n = some e ∧
        ∀ d ∈ e.deps, d ≠ [] → d ∈ installedNames s') ∧
      (Relation.TransGen (Needs s) name name → rc ≠ .ok ∧ rc ≠ .already ∧
        ∀ n, Relation.TransGen (Needs s) name n → Relation.TransGen (Needs s) n name → n ∉ installedNames s') := by
  obtain ⟨⟨rc, s'⟩, hr⟩ := Option.ne_none_iff_exists'.mp (install_total env serialize 0 s name)
  obtain ⟨hg, hin⟩ := install_spec env serialize 2 s name rc s' hr
  obtain ⟨es, hnames, htop, hes⟩ := hg.added
  refine ⟨rc, s', fun calls => (install_enough env serialize calls s name).trans hr, ?_, ?_⟩
  · intro n hn hnot
    rw [hnames] at hn
    obtain ⟨e, he, hname⟩ := mem_map.mp ((mem_append.mp hn).resolve_left hnot)
    refine ⟨e, hname ▸ (hes e he).1, ?_⟩
    intro d hd hne
    rw [hnames]
    exact htop.mem he hd hne
  · intro hcycle
    -- what lies on a cycle through the package needs something else on it
    have hnext (n : Text) (hto : Relation.TransGen (Needs s) name n) (hfrom : Relation.TransGen (Needs s) n name) :
        ∃ b, Needs s n b ∧ Relation.TransGen (Needs s) name b ∧ Relation.TransGen (Needs s) b name := by
      cases Relation.TransGen.head'_iff.mp hfrom with
      | intro b hb =>
        obtain ⟨hb, hrest⟩ := hb
        refine ⟨b, hb, hto.tail hb, ?_⟩
        cases Relation.ReflTransGen.cases_head hrest with
        | inl heq => exact heq ▸ hcycle
        | inr hstep =>
          obtain ⟨c, hc, hrest⟩ := hstep
          exact Relation.TransGen.head' hc hrest
    have hout := htop.no_cycle
      (C := fun n => Relation.TransGen (Needs s) name n ∧ Relation.TransGen (Needs s) n name) (by
        intro n hn hc
        obtain ⟨b, hb, _⟩ := hnext n hc.1 hc.2
        exact hb.1 hn) (by
        intro e he hc
        obtain ⟨b, ⟨_, _, hne, f, hf, hd⟩, hb⟩ := hnext e.name hc.1 hc.2
        rw [(hes e he).1] at hf
        cases hf
        exact ⟨b, hd, hne, hb⟩)
    have hnone : ∀ n, Relation.TransGen (Needs s) name n → Relation.TransGen (Needs s) n name →
        n ∉ installedNames s' := by
      intro n hto hfrom hn
      rw [hnames] at hn
      cases mem_append.mp hn with
      | inl hn =>
        obtain ⟨b, hb, _⟩ := hnext n hto hfrom
        exact hb.1 hn
      | inr hn =>
        obtain ⟨e, he, rfl⟩ := mem_map.mp hn
        exact hout e he ⟨hto, hfrom⟩
    have hself := hnone name hcycle hcycle
    exact ⟨fun hok => hself (hin (.inl hok)), fun hal => hself (hin (.inr hal)), hnone⟩

end CapyOS.Proofs
