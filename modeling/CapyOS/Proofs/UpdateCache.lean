import CapyOS.Services.UpdateApply

namespace CapyOS.Proofs
open Function List Option
variable {files files' : Text → Option Text} {stored : List Text} {data : Text} {s : CacheStore}
    {fails : Nat → Bool}

/-! ## The descriptor -/

theorem byte_char (k : Nat) : (Char.ofNat (k % 256)).toNat = k % 256 := by
  have hall : ∀ k : Fin 256, (Char.ofNat k.val).toNat = k.val := by decide +kernel
  exact hall ⟨k % 256, Nat.mod_lt _ (by decide)⟩

theorem loadWord_storeWord {n : Nat} (hn : n < 2 ^ 32) (pre post : Text) :
    loadWord (pre ++ storeWord n ++ post) pre.length = n := by
  have hbyte : ∀ i < 4, ((pre ++ storeWord n ++ post).getD (pre.length + i) '\x00').toNat =
    n / 2 ^ (8 * i) % 256 := by
    intro i hi
    rw [append_assoc, getD_eq_getElem?_getD, List.getElem?_append_right (Nat.le_add_right _ _),
      Nat.add_sub_cancel_left, List.getElem?_append_left hi, storeWord, List.getElem?_map,
      List.getElem?_range hi, map_some, getD_some]
    exact byte_char _
  rw [loadWord]
  dsimp only
  rw [hbyte 0 (by decide), hbyte 1 (by decide), hbyte 2 (by decide), hbyte 3 (by decide)]
  omega

theorem part_count {size : Nat} (hlarge : updateCacheSingleBytes < size) (hmax : size ≤ updateAgentPayloadMaxBytes) :
    0 < cachePartCount size ∧ cachePartCount size ≤ updateCacheMaxParts ∧ size ≤ cachePartCount size * updateCachePartBytes ∧
    ∀ i < cachePartCount size, i * updateCachePartBytes < size := by
  have hpart : updateCachePartBytes = 2097152 := rfl
  have hparts : updateCacheMaxParts = 4 := rfl
  have hsingle : updateCacheSingleBytes = 4243456 := rfl
  have hbytes : updateAgentPayloadMaxBytes = 8388608 := rfl
  rw [hsingle] at hlarge
  rw [hbytes] at hmax
  rw [cachePartCount, hpart, hparts]
  refine ⟨by omega, by omega, by omega, fun i hi => by omega⟩

theorem descriptor_words {size : Nat} (hmax : size ≤ updateAgentPayloadMaxBytes) :
    (cacheDescriptor size).length = updateCacheDescriptorBytes ∧
    (cacheDescriptor size).take updateCacheMagic.length = updateCacheMagic ∧
    loadWord (cacheDescriptor size) 8 = size ∧ loadWord (cacheDescriptor size) 12 = cachePartCount size ∧
    loadWord (cacheDescriptor size) 16 = updateCachePartBytes := by
  have hsize : size < 2 ^ 32 := Nat.lt_of_le_of_lt hmax (by decide)
  have hcount : cachePartCount size < 2 ^ 32 := by
    simp only [cachePartCount, updateCachePartBytes]
    omega
  refine ⟨rfl, ?_, ?_, ?_, ?_⟩
  · rw [cacheDescriptor, append_assoc, append_assoc]
    exact take_left
  · have hword := loadWord_storeWord hsize updateCacheMagic
      (storeWord (cachePartCount size) ++ storeWord updateCachePartBytes)
    rwa [← append_assoc] at hword
  · exact loadWord_storeWord hcount (updateCacheMagic ++ storeWord size) (storeWord updateCachePartBytes)
  · have hword := loadWord_storeWord (n := updateCachePartBytes) (by decide)
      (updateCacheMagic ++ storeWord size ++ storeWord (cachePartCount size)) []
    rwa [append_nil] at hword

/-! ## What the files are -/

def NoParts (files : Text → Option Text) : Prop := ∀ i < updateCacheMaxParts, files (partPath i) = none

def partOf (data : Text) (i : Nat) : Text := (data.drop (i * updateCachePartBytes)).take updateCachePartBytes

def PartsOf (files : Text → Option Text) (data : Text) : Prop :=
  ∀ i < updateCacheMaxParts, files (partPath i) = none ∨
    i < cachePartCount data.length ∧ files (partPath i) = some (partOf data i)

/-- What a store can be between two calls. -/
inductive CacheInv (files : Text → Option Text) (stored : List Text) : Prop
  | hidden : files updateAgentPayloadCachePath = none → CacheInv files stored
  | single (data : Text) : data ∈ stored → data ≠ [] → data.length ≤ updateCacheSingleBytes →
      files updateAgentPayloadCachePath = some data → NoParts files → CacheInv files stored
  | segmented (data : Text) : data ∈ stored → updateCacheSingleBytes < data.length →
      data.length ≤ updateAgentPayloadMaxBytes →
      files updateAgentPayloadCachePath = some (cacheDescriptor data.length) → PartsOf files data →
        CacheInv files stored

structure Shrunk (files files' : Text → Option Text) : Prop where
  head : files' updateAgentPayloadCachePath = files updateAgentPayloadCachePath ∨
    files' updateAgentPayloadCachePath = none
  parts : ∀ i < updateCacheMaxParts, files' (partPath i) = files (partPath i) ∨ files' (partPath i) = none

theorem CacheInv.shrunk (h : CacheInv files stored) (hs : Shrunk files files') : CacheInv files' stored := by
  rcases hs.head with hsame | hnone
  · cases h with
    | hidden hhead => exact .hidden (hsame.trans hhead)
    | single data hmem hne hsmall hhead hparts =>
      refine .single data hmem hne hsmall (hsame.trans hhead) fun i hi => ?_
      rcases hs.parts i hi with heq | heq
      · exact heq.trans (hparts i hi)
      · exact heq
    | segmented data hmem hlarge hmax hhead hparts =>
      refine .segmented data hmem hlarge hmax (hsame.trans hhead) fun i hi => ?_
      rcases hs.parts i hi with heq | heq
      · rcases hparts i hi with hgone | ⟨hcount, hpart⟩
        · exact .inl (heq.trans hgone)
        · exact .inr ⟨hcount, heq.trans hpart⟩
      · exact .inl heq
  · exact .hidden hnone

theorem longer_path (d : Char) : "/system/update/payload.bin.part".toList ++ [d] ≠ updateAgentPayloadCachePath := by
  intro h
  have hlen := congrArg List.length h
  have hpart : ("/system/update/payload.bin.part".toList ++ [d]).length = 32 := by
    rw [length_append]
    rfl
  rw [hpart] at hlen
  exact absurd hlen (by decide)

theorem part_ne_head (i : Nat) : partPath i ≠ updateAgentPayloadCachePath := longer_path _

theorem part_inj {i k : Nat} (hi : i < updateCacheMaxParts) (hk : k < updateCacheMaxParts) (h : partPath i = partPath k) :
    i = k := by
  have hdigits : ∀ i < updateCacheMaxParts, ∀ k < updateCacheMaxParts, Nat.digitChar i =
    Nat.digitChar k → i = k := by
    decide
  have hlast : [Nat.digitChar i] = [Nat.digitChar k] := append_cancel_left h
  exact hdigits i hi k hk (List.cons.inj hlast).1

/-! ## Removing -/

theorem remove_files (path q : Text) : (s.remove fails path).2.files q = s.files q ∨
    (s.remove fails path).2.files q = none ∧ q = path := by
  unfold CacheStore.remove
  split
  · exact .inl rfl
  · by_cases h : q = path
    · exact .inr ⟨by simp [h], h⟩
    · exact .inl (update_of_ne h none s.files)

theorem remove_done {path : Text} (h : (s.remove fails path).1 = true) : (s.remove fails path).2.files path = none := by
  unfold CacheStore.remove at h ⊢
  split
  next hfail =>
    rw [if_pos hfail] at h
    exact nomatch h
  next => exact update_self path none s.files

theorem removeParts_spec (n part : Nat) (ok : Bool) (s : CacheStore) :
    (∀ q, (removeParts fails n part ok s).2.files q = s.files q ∨ (removeParts fails n part ok s).2.files q = none) ∧
    (∀ q, (∀ i, q ≠ partPath i) → (removeParts fails n part ok s).2.files q = s.files q) ∧
    ((removeParts fails n part ok s).1 = true →
      ok = true ∧ ∀ i, part ≤ i → i < part + n → (removeParts fails n part ok s).2.files (partPath i) = none) := by
  induction n generalizing part ok s with
  | zero => exact ⟨fun _ => .inl rfl, fun _ _ => rfl, fun h => ⟨h, fun i hlo hhi => by omega⟩⟩
  | succ n ih =>
    obtain ⟨hany, hother, hdone⟩ := ih (part + 1) (ok && (s.remove fails (partPath part)).1)
      (s.remove fails (partPath part)).2
    rw [removeParts]
    refine ⟨fun q => ?_, fun q hq => ?_, fun h => ?_⟩
    · rcases hany q with heq | hnone
      · rcases @remove_files s fails (partPath part) q with hkept | ⟨hgone, -⟩
        · exact .inl (heq.trans hkept)
        · exact .inr (heq.trans hgone)
      · exact .inr hnone
    · rcases @remove_files s fails (partPath part) q with hkept | ⟨-, hpath⟩
      · exact (hother q hq).trans hkept
      · exact absurd hpath (hq part)
    · obtain ⟨hboth, hrest⟩ := hdone h
      rw [Bool.and_eq_true] at hboth
      refine ⟨hboth.1, fun i hlo hhi => ?_⟩
      by_cases hi : i = part
      · subst hi
        have hgone := remove_done hboth.2
        rcases hany (partPath i) with heq | hnone
        · exact heq.trans hgone
        · exact hnone
      · exact hrest i (by omega) (by omega)

theorem cacheRemove_spec (s : CacheStore) : Shrunk s.files (cacheRemove fails updateAgentPayloadCachePath s).2.files ∧
    ((cacheRemove fails updateAgentPayloadCachePath s).1 = true →
      (cacheRemove fails updateAgentPayloadCachePath s).2.files updateAgentPayloadCachePath = none ∧
      NoParts (cacheRemove fails updateAgentPayloadCachePath s).2.files) := by
  rw [cacheRemove, if_neg (by simp)]
  dsimp only
  obtain ⟨hany, hother, hdone⟩ := @removeParts_spec fails updateCacheMaxParts 0
    (s.remove fails updateAgentPayloadCachePath).1 (s.remove fails updateAgentPayloadCachePath).2
  have hhead := hother updateAgentPayloadCachePath fun i => (part_ne_head i).symm
  refine ⟨⟨?_, fun i hi => ?_⟩, fun h => ?_⟩
  · rcases @remove_files s fails updateAgentPayloadCachePath updateAgentPayloadCachePath with
      hkept | ⟨hgone, -⟩
    · exact .inl (hhead.trans hkept)
    · exact .inr (hhead.trans hgone)
  · rcases hany (partPath i) with heq | hnone
    · rcases @remove_files s fails updateAgentPayloadCachePath (partPath i) with hkept | ⟨-, hpath⟩
      · exact .inl (heq.trans hkept)
      · exact absurd hpath (part_ne_head i)
    · exact .inr hnone
  · obtain ⟨hremoved, hparts⟩ := hdone h
    exact ⟨hhead.trans (remove_done hremoved), fun i hi => hparts i (Nat.zero_le i) (by omega)⟩

/-! ## Writing -/

theorem write_pair {path content : Text} {ok : Bool} (h : (s.write fails path content).1 = ok) :
    s.write fails path content = (ok, (s.write fails path content).2) := Prod.ext h rfl

theorem write_done {path content : Text} (h : (s.write fails path content).1 = true) :
    (s.write fails path content).2.files = update s.files path (some content) := by
  unfold CacheStore.write at h ⊢
  split
  next hfail =>
    rw [if_pos hfail] at h
    exact nomatch h
  next => rfl

theorem write_failed {path content : Text} (h : (s.write fails path content).1 = false) :
    (s.write fails path content).2.files = s.files := by
  unfold CacheStore.write at h ⊢
  split
  next => rfl
  next hfail =>
    rw [if_neg hfail] at h
    exact nomatch h

theorem writeParts_spec (n part done : Nat) (s : CacheStore) (hdone : done = min (part * updateCachePartBytes) data.length) :
    (∀ q, (∀ i, q ≠ partPath i) → (writeParts fails data n part done s).2.files q = s.files q) ∧
    (part + n ≤ updateCacheMaxParts → (writeParts fails data n part done s).1 = true →
      ∀ i < updateCacheMaxParts, (writeParts fails data n part done s).2.files (partPath i) =
        if part ≤ i ∧ i < part + n then some (partOf data i) else s.files (partPath i)) := by
  induction n generalizing part done s with
  | zero =>
    refine ⟨fun _ _ => rfl, fun _ _ i _ => ?_⟩
    rw [if_neg (by omega)]
    rfl
  | succ n ih =>
    have hchunk : (data.drop done).take (min (data.length - done) updateCachePartBytes) = partOf data part := by
      have hdrop : data.drop done = data.drop (part * updateCachePartBytes) := by
        rw [hdone]
        by_cases h : part * updateCachePartBytes ≤ data.length
        · rw [Nat.min_eq_left h]
        · rw [Nat.min_eq_right (by omega), drop_eq_nil_of_le (Nat.le_refl _), drop_eq_nil_of_le (by omega)]
      rw [partOf, hdrop, take_eq_take_iff, length_drop]
      omega
    have hnext : done + min (data.length - done) updateCachePartBytes =
        min ((part + 1) * updateCachePartBytes) data.length := by
      rw [hdone, Nat.add_mul, Nat.one_mul]
      omega
    rw [writeParts, hchunk, hnext]
    cases hwrite : (s.write fails (partPath part) (partOf data part)).1 with
    | false =>
      rw [write_pair hwrite]
      exact ⟨fun q _ => congrFun (write_failed hwrite) q, fun _ hno => nomatch hno⟩
    | true =>
      rw [write_pair hwrite]
      dsimp only
      obtain ⟨hother, hparts⟩ := ih (part + 1) _ (s.write fails (partPath part) (partOf data part)).2 rfl
      have hfiles := write_done hwrite
      refine ⟨fun q hq => ?_, fun hroom hok i hi => ?_⟩
      · rw [hother q hq, hfiles, update_of_ne (hq part)]
      · rw [hparts (by omega) hok i hi, hfiles]
        by_cases heq : i = part
        · subst heq
          rw [if_neg (by omega), if_pos (by omega), update_self]
        · have hne : partPath i ≠ partPath part := fun h => heq (part_inj hi (by omega) h)
          rw [update_of_ne hne]
          by_cases hin : part + 1 ≤ i ∧ i < part + 1 + n
          · rw [if_pos hin, if_pos (by omega)]
          · rw [if_neg hin, if_neg (by omega)]

/-- What a write that returned 0 leaves. -/
inductive Cached (files : Text → Option Text) (data : Text) : Prop
  | single : data.length ≤ updateCacheSingleBytes → files updateAgentPayloadCachePath = some data →
      NoParts files → Cached files data
  | segmented : updateCacheSingleBytes < data.length →
      files updateAgentPayloadCachePath = some (cacheDescriptor data.length) →
      (∀ i < updateCacheMaxParts, files (partPath i) =
        if i < cachePartCount data.length then some (partOf data i) else none) → Cached files data

theorem Cached.inv (h : Cached files data) (hne : data ≠ []) (hmax : data.length ≤ updateAgentPayloadMaxBytes)
    (hmem : data ∈ stored) : CacheInv files stored := by
  cases h with
  | single hsmall hhead hparts => exact .single data hmem hne hsmall hhead hparts
  | segmented hlarge hhead hparts =>
    refine .segmented data hmem hlarge hmax hhead fun i hi => ?_
    rw [hparts i hi]
    by_cases hcount : i < cachePartCount data.length
    · exact .inr ⟨hcount, if_pos hcount⟩
    · exact .inl (if_neg hcount)

/-- What a write can do: files of the cache are gone, or the payload is hidden, or it is
there whole. -/
theorem cacheWrite_spec (path : Text) (s : CacheStore) : ((cacheWrite fails path data s).1 = false ∧
      (Shrunk s.files (cacheWrite fails path data s).2.files ∨
        (cacheWrite fails path data s).2.files updateAgentPayloadCachePath = none)) ∨
    ((cacheWrite fails path data s).1 = true ∧ data ≠ [] ∧ data.length ≤ updateAgentPayloadMaxBytes ∧
      Cached (cacheWrite fails path data s).2.files data) := by
  rw [cacheWrite]
  split
  next => exact .inl ⟨rfl, .inl ⟨.inl rfl, fun _ _ => .inl rfl⟩⟩
  next hargs =>
    simp only [not_or, not_not, Nat.not_lt] at hargs
    obtain ⟨rfl, hne, hmax⟩ := hargs
    obtain ⟨hshrunk, hgone⟩ := @cacheRemove_spec fails s
    rcases hremove : cacheRemove fails updateAgentPayloadCachePath s with ⟨removed, r⟩
    rw [hremove] at hshrunk hgone
    cases removed with
    | false => exact .inl ⟨rfl, .inl hshrunk⟩
    | true =>
      obtain ⟨hhead, hnone⟩ := hgone rfl
      dsimp only
      by_cases hsmall : data.length ≤ updateCacheSingleBytes
      · rw [if_pos hsmall]
        cases hwrite : (r.write fails updateAgentPayloadCachePath data).1 with
        | false =>
          rw [write_failed hwrite]
          exact .inl ⟨rfl, .inl hshrunk⟩
        | true =>
          refine .inr ⟨rfl, hne, hmax, .single hsmall ?_ fun i hi => ?_⟩
          · rw [write_done hwrite, update_self]
          · rw [write_done hwrite, update_of_ne (part_ne_head i)]
            exact hnone i hi
      · rw [if_neg hsmall]
        obtain ⟨hother, hparts⟩ := @writeParts_spec data fails (cachePartCount data.length) 0 0 r (by simp)
        have hcount := (part_count (Nat.lt_of_not_le hsmall) hmax).2.1
        rcases hloop : writeParts fails data (cachePartCount data.length) 0 0 r with ⟨wrote, w⟩
        rw [hloop] at hother hparts
        have hhidden : w.files updateAgentPayloadCachePath = none :=
          (hother _ fun i => (part_ne_head i).symm).trans hhead
        have hcleanup : ∀ w : CacheStore, w.files updateAgentPayloadCachePath = none →
            (cacheRemove fails updateAgentPayloadCachePath w).2.files updateAgentPayloadCachePath = none :=
          fun w hw => (@cacheRemove_spec fails w).1.head.elim (·.trans hw) id
        cases wrote with
        | false => exact .inl ⟨rfl, .inr (hcleanup w hhidden)⟩
        | true =>
          dsimp only
          cases hwrite : (w.write fails updateAgentPayloadCachePath (cacheDescriptor data.length)).1 with
          | false =>
            rw [write_pair hwrite]
            refine .inl ⟨rfl, .inr (hcleanup _ ?_)⟩
            rw [write_failed hwrite]
            exact hhidden
          | true =>
            rw [write_pair hwrite]
            refine .inr ⟨rfl, hne, hmax, .segmented (Nat.lt_of_not_le hsmall) ?_ fun i hi => ?_⟩
            · dsimp only
              rw [write_done hwrite, update_self]
            · dsimp only
              rw [write_done hwrite, update_of_ne (part_ne_head i), hparts (by omega) rfl i hi, hnone i hi]
              simp only [Nat.zero_le, Nat.zero_add, true_and]

theorem run_inv (h : CacheRun s stored) : CacheInv s.files stored := by
  induction h with
  | start => exact .hidden rfl
  | @write s stored fails path data _ ih =>
    rcases @cacheWrite_spec data fails path s with ⟨hrc, hshrunk | hhidden⟩ | ⟨hrc, hne, hmax, hcached⟩
    · rw [hrc]
      exact ih.shrunk hshrunk
    · exact .hidden hhidden
    · rw [hrc]
      exact hcached.inv hne hmax (by simp)
  | @remove s stored fails path _ ih =>
    by_cases hpath : path = updateAgentPayloadCachePath
    · subst hpath
      exact ih.shrunk (@cacheRemove_spec fails s).1
    · rw [cacheRemove, if_pos hpath]
      exact ih

/-! ## Reading -/

variable {env : UpdateEnv (Text → Option Text)} {capacity : Nat}

theorem store_read (path : Text) (capacity : Nat) : (storeEnv env).readBytes files path capacity =
    (files path).filter fun content => content.length ≤ capacity := rfl

theorem readParts_spec (hlarge : updateCacheSingleBytes < data.length)
    (hmax : data.length ≤ updateAgentPayloadMaxBytes) (hparts : PartsOf files data)
    (n part : Nat) (hn : part + n = cachePartCount data.length) :
    (∀ x, (storeEnv env).readParts files data.length n part (data.take (part * updateCachePartBytes)) = some x → x = data) ∧
    ((∀ i < cachePartCount data.length, files (partPath i) = some (partOf data i)) →
      (storeEnv env).readParts files data.length n part (data.take (part * updateCachePartBytes)) = some data) := by
  obtain ⟨-, hcount, hcover, hinside⟩ := part_count hlarge hmax
  induction n generalizing part with
  | zero =>
    have hall : data.take (part * updateCachePartBytes) = data :=
      take_of_length_le (by rwa [show part = cachePartCount data.length by omega])
    rw [UpdateEnv.readParts, hall]
    exact ⟨fun x hx => (Option.some.inj hx).symm, fun _ => rfl⟩
  | succ n ih =>
    have hstart := hinside part (by omega)
    have hdone : (data.take (part * updateCachePartBytes)).length = part * updateCachePartBytes := by
      rw [length_take]
      omega
    have hsize : (partOf data part).length = min (data.length - part * updateCachePartBytes)
      updateCachePartBytes := by
      rw [partOf, length_take, length_drop, Nat.min_comm]
    have hnext : data.take (part * updateCachePartBytes) ++ partOf data part =
        data.take ((part + 1) * updateCachePartBytes) := by
      rw [Nat.add_mul, Nat.one_mul, take_add, partOf]
    rw [UpdateEnv.readParts, hdone, store_read]
    obtain ⟨hany, hall⟩ := ih (part + 1) (by omega)
    have hpresent : files (partPath part) = some (partOf data part) →
        (files (partPath part)).filter (fun content =>
          content.length ≤ min (data.length - part * updateCachePartBytes) updateCachePartBytes) =
            some (partOf data part) := by
      intro hfile
      rw [hfile, filter_some, if_pos (by simp [hsize])]
    constructor
    · intro x hx
      rcases hparts part (by omega) with hgone | ⟨-, hfile⟩
      · rw [hgone] at hx
        exact nomatch hx
      · rw [hpresent hfile] at hx
        dsimp only at hx
        rw [if_neg (by simp [hsize]), hnext] at hx
        exact hany x hx
    · intro hfiles
      rw [hpresent (hfiles part (by omega))]
      dsimp only
      rw [if_neg (by simp [hsize]), hnext]
      exact hall hfiles

theorem readParts_none (hparts : NoParts files) (total n : Nat) : (storeEnv env).readParts files total (n + 1) 0 [] = none := by
  have hpart : files (partPath 0) = none := hparts 0 (by decide)
  rw [UpdateEnv.readParts, store_read, hpart]
  rfl

theorem read_single (hne : data ≠ []) (hsmall : data.length ≤ updateCacheSingleBytes)
    (hhead : files updateAgentPayloadCachePath = some data) (hparts : NoParts files)
    (hcap : 0 < capacity) (hcapMax : capacity ≤ updateAgentPayloadMaxBytes) :
    (storeEnv env).cacheRead files updateAgentPayloadCachePath capacity =
      if data.length ≤ capacity ∧ data.take updateCacheMagic.length ≠ updateCacheMagic then some data else none := by
  rw [UpdateEnv.cacheRead, if_neg (by simp only [ne_eq, not_true_eq_false, false_or]; omega), store_read, hhead,
    filter_some]
  by_cases hfits : data.length ≤ capacity
  · rw [if_pos (by simpa using hfits)]
    dsimp only
    rw [if_neg (by simp only [hne, false_or]; omega)]
    by_cases hmagic : data.take updateCacheMagic.length = updateCacheMagic
    · have hnone : (if data.length ≤ capacity ∧ data.take updateCacheMagic.length ≠ updateCacheMagic
          then some data else none) = none := if_neg fun h => h.2 hmagic
      rw [hnone, if_neg (not_not.mpr hmagic)]
      split
      next => rfl
      next =>
        split
        next => rfl
        next hwords =>
          simp only [not_or, Nat.not_lt, Nat.not_le, not_not] at hwords
          obtain ⟨htotal, -, -, -, hcount⟩ := hwords
          have hpos : 0 < loadWord data 12 := by
            rw [hcount]
            exact Nat.div_pos (by have := Nat.zero_lt_of_lt htotal; omega) (by decide)
          obtain ⟨n, hn⟩ := Nat.exists_eq_add_of_lt hpos
          rw [hn, Nat.zero_add]
          exact @readParts_none files env hparts _ n
    · rw [if_pos hmagic, if_neg (Nat.not_lt.mpr hsmall), if_pos ⟨hfits, hmagic⟩]
  · rw [if_neg (by simpa using hfits), if_neg (fun h => hfits h.1)]

/-- What is read of a payload in parts is the payload or nothing. -/
theorem read_segmented (hlarge : updateCacheSingleBytes < data.length) (hmax : data.length ≤ updateAgentPayloadMaxBytes)
    (hhead : files updateAgentPayloadCachePath = some (cacheDescriptor data.length)) (hparts : PartsOf files data)
    (hcapMax : capacity ≤ updateAgentPayloadMaxBytes) :
    (∀ x, (storeEnv env).cacheRead files updateAgentPayloadCachePath capacity = some x → x = data) ∧
    ((∀ i < cachePartCount data.length, files (partPath i) = some (partOf data i)) → data.length ≤ capacity →
      (storeEnv env).cacheRead files updateAgentPayloadCachePath capacity = some data) := by
  obtain ⟨hlen, hmagic, hsize, hcount, hchunk⟩ := descriptor_words hmax
  obtain ⟨hany, hall⟩ := @readParts_spec files data env hlarge hmax hparts (cachePartCount data.length) 0
    (by simp)
  have hcountMax := (part_count hlarge hmax).2.1
  rw [Nat.zero_mul, take_zero] at hany hall
  have hread : ∀ cap, (storeEnv env).readBytes files updateAgentPayloadCachePath cap =
      if (cacheDescriptor data.length).length ≤ cap then some (cacheDescriptor data.length) else none := by
    intro cap
    rw [store_read, hhead, filter_some]
    simp only [decide_eq_true_eq]
  have hcached : data.length ≤ capacity → (storeEnv env).cacheRead files updateAgentPayloadCachePath capacity =
      (storeEnv env).readParts files data.length (cachePartCount data.length) 0 [] := by
    intro hfits
    have hsingle : updateCacheSingleBytes = 4243456 := rfl
    have hdesc : updateCacheDescriptorBytes = 20 := rfl
    have hroom : (cacheDescriptor data.length).length ≤ capacity := by rw [hlen]; omega
    have hne : cacheDescriptor data.length ≠ [] := ne_nil_of_length_pos (by rw [hlen]; decide)
    rw [UpdateEnv.cacheRead, if_neg (by simp only [ne_eq, not_true_eq_false, false_or]; omega), hread, if_pos hroom]
    dsimp only
    rw [if_neg (by simp only [hne, false_or]; omega), if_neg (not_not.mpr hmagic), if_neg (not_not.mpr hlen),
      hsize, hcount, hchunk, if_neg ?_]
    simp only [ne_eq, not_true_eq_false, false_or, not_or, Nat.not_lt, Nat.not_le, not_not]
    exact ⟨hlarge, hfits, hcountMax, rfl⟩
  refine ⟨fun x hx => ?_, fun hfiles hfits => (hcached hfits).trans (hall hfiles)⟩
  by_cases hfits : data.length ≤ capacity
  · rw [hcached hfits] at hx
    exact hany x hx
  · -- the length in the descriptor is above the capacity
    rw [UpdateEnv.cacheRead] at hx
    split at hx
    next => exact nomatch hx
    next =>
      rw [hread] at hx
      split at hx
      next => exact nomatch hx
      next head hhead' =>
        obtain ⟨-, hsome⟩ := ite_none_right_eq_some.mp hhead'
        obtain rfl := Option.some.inj hsome
        rw [hmagic, hsize] at hx
        split at hx
        next => exact nomatch hx
        next =>
          rw [if_neg (not_not.mpr rfl), if_neg (not_not.mpr hlen)] at hx
          dsimp only at hx
          rw [if_pos (.inr (.inl (Nat.lt_of_not_le hfits)))] at hx
          exact nomatch hx

theorem read_stored (h : CacheInv files stored) (path : Text)
    (hread : (storeEnv env).cacheRead files path capacity = some data) : data ∈ stored := by
  have hargs : path = updateAgentPayloadCachePath ∧ 0 < capacity ∧ capacity ≤ updateAgentPayloadMaxBytes := by
    rw [UpdateEnv.cacheRead] at hread
    split at hread
    next => exact nomatch hread
    next hargs =>
      simp only [not_or, not_not, Nat.not_lt] at hargs
      exact ⟨hargs.1, by omega, hargs.2.2⟩
  obtain ⟨rfl, hcap, hcapMax⟩ := hargs
  cases h with
  | hidden hhead =>
    rw [UpdateEnv.cacheRead, if_neg (by simp only [ne_eq, not_true_eq_false, false_or]; omega), store_read, hhead] at hread
    exact nomatch hread
  | single d hmem hne hsmall hhead hparts =>
    rw [read_single hne hsmall hhead hparts hcap hcapMax] at hread
    split at hread
    next => exact Option.some.inj hread ▸ hmem
    next => exact nomatch hread
  | segmented d hmem hlarge hmax hhead hparts =>
    exact (read_segmented hlarge hmax hhead hparts hcapMax).1 data hread ▸ hmem

/-- A reader never gets anything but a whole payload that was stored, whatever fails and
wherever a write is cut off. It gets the payload written last, unless that is a small one
that begins like a descriptor. -/
theorem cache_round_trip (env : UpdateEnv (Text → Option Text)) :
    (∀ s stored, CacheRun s stored → ∀ path capacity data,
      (storeEnv env).cacheRead s.files path capacity = some data → data ∈ stored) ∧
    (∀ fails path data s, (cacheWrite fails path data s).1 = true → ∀ capacity, data.length ≤ capacity →
      capacity ≤ updateAgentPayloadMaxBytes →
      ((storeEnv env).cacheRead (cacheWrite fails path data s).2.files path capacity = some data ↔
        updateCacheSingleBytes < data.length ∨ data.take updateCacheMagic.length ≠ updateCacheMagic)) := by
  refine ⟨fun s stored hrun path capacity data hread => read_stored (run_inv hrun) path hread, ?_⟩
  intro fails path data s hdone capacity hfits hcapMax
  have hpath : path = updateAgentPayloadCachePath := by
    by_contra hother
    rw [cacheWrite, if_pos (.inl hother)] at hdone
    exact nomatch hdone
  rcases @cacheWrite_spec data fails path s with ⟨hrc, -⟩ | ⟨-, hne, hmax, hcached⟩
  · rw [hrc] at hdone
    exact nomatch hdone
  · subst hpath
    have hpos := List.length_pos_iff.mpr hne
    cases hcached with
    | single hsmall hhead hparts =>
      rw [read_single hne hsmall hhead hparts (by omega) hcapMax]
      by_cases hmagic : data.take updateCacheMagic.length = updateCacheMagic
      · simp [hmagic, Nat.not_lt.mpr hsmall]
      · simp [hmagic, hfits]
    | segmented hlarge hhead hparts =>
      have hpartsOf : PartsOf (cacheWrite fails updateAgentPayloadCachePath data s).2.files data := by
        intro i hi
        rw [hparts i hi]
        by_cases hcount : i < cachePartCount data.length
        · exact .inr ⟨hcount, if_pos hcount⟩
        · exact .inl (if_neg hcount)
      have hcount := (part_count hlarge hmax).2.1
      have hread := (@read_segmented _ _ env _ hlarge hmax hhead hpartsOf hcapMax).2
        (fun i hi => by rw [hparts i (by omega), if_pos hi]) hfits
      exact iff_of_true hread (.inl hlarge)

def cacheEnv : UpdateEnv (Text → Option Text) where
  read := storeRead
  write := none
  readBytes := storeRead
  alloc _ := true
  sha256 _ := List.replicate 32 0
  sha256_length _ := rfl
  ed25519Verify _ _ := false
  stageBootPayload _ _ _ := none
  armBootSlot _ _ := false

/-- A payload of the eight bytes that mark a descriptor is stored raw, and read as one. -/
theorem marked_not_read_back :
    (cacheWrite (fun _ => false) updateAgentPayloadCachePath updateCacheMagic ⟨fun _ => none, 0⟩).1 = true ∧
    (storeEnv cacheEnv).cacheRead
      (cacheWrite (fun _ => false) updateAgentPayloadCachePath updateCacheMagic ⟨fun _ => none, 0⟩).2.files
      updateAgentPayloadCachePath updateCacheMagic.length = none := by
  decide +kernel

end CapyOS.Proofs
