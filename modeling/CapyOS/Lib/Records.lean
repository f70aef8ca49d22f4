import CapyOS.Lib.Bytes

namespace CapyOS.Lib

@[simp] theorem packWidth_nil : packWidth [] = 0 := rfl

@[simp] theorem packWidth_cons (w v : Nat) (fs : List (Nat × Nat)) :
    packWidth ((w, v) :: fs) = w + packWidth fs := by simp [packWidth]

@[simp] theorem packWidth_append (fs gs : List (Nat × Nat)) :
    packWidth (fs ++ gs) = packWidth fs + packWidth gs := by simp [packWidth]

theorem pack_append_right (fs gs : List (Nat × Nat)) (i : Nat) : pack (fs ++ gs) (packWidth fs + i) = pack gs i := by
  induction fs with
  | nil => simp
  | cons f fs ih =>
    obtain ⟨w, v⟩ := f
    rw [packWidth_cons, ← ih]
    simp only [List.cons_append, pack]
    rw [if_neg (by omega)]
    congr 1
    omega

theorem pack_append_left {fs : List (Nat × Nat)} (gs : List (Nat × Nat)) {i : Nat}
    (h : i < packWidth fs) : pack (fs ++ gs) i = pack fs i := by
  induction fs generalizing i with
  | nil => simp at h
  | cons f fs ih =>
    obtain ⟨w, v⟩ := f
    rw [packWidth_cons] at h
    simp only [List.cons_append, pack]
    split
    · rfl
    · exact ih (by omega)

/-- A record ends in zeros. -/
theorem pack_beyond {fs : List (Nat × Nat)} {i : Nat} (h : packWidth fs ≤ i) : pack fs i = 0 := by
  induction fs generalizing i with
  | nil => rfl
  | cons f fs ih =>
    obtain ⟨w, v⟩ := f
    rw [packWidth_cons] at h
    simp only [pack]
    rw [if_neg (by omega)]
    exact ih (by omega)

/-- A run of single bytes as fields of a record. -/
def byteFields (bs : List Byte) : List (Nat × Nat) := bs.map fun b => (1, b.toNat)

@[simp] theorem packWidth_byteFields (bs : List Byte) : packWidth (byteFields bs) = bs.length := by
  induction bs with
  | nil => rfl
  | cons b bs ih =>
    rw [byteFields, List.map_cons, packWidth_cons, List.length_cons, ← ih, Nat.add_comm]
    rfl

theorem pack_byteFields (bs : List Byte) (gs : List (Nat × Nat)) {i : Nat} (h : i < bs.length) :
    pack (byteFields bs ++ gs) i = bs[i] := by
  induction bs generalizing i with
  | nil => simp at h
  | cons b bs ih =>
    cases i with
    | zero => simp [byteFields, pack, leBytes]
    | succ i =>
      have hi := ih (by simpa using h)
      simpa [byteFields, pack] using hi

section
variable {fs : List (Nat × Nat)} (gs : List (Nat × Nat)) {n : Nat}

theorem load_right (h : packWidth fs = n) (o k : Nat) : load (pack (fs ++ gs)) (n + o) k = load (pack gs) o k := by
  rw [← h, load_pack_append]

/-- Fields that follow others are read at their offset from the others' end. -/
theorem pack_right (h : packWidth fs = n) (i : Nat) : pack (fs ++ gs) (n + i) = pack gs i := by
  rw [← h]
  exact pack_append_right fs gs i

end

theorem field64_congr {a b : Bytes} {o : Nat} (h : ∀ i, o ≤ i → i < o + 8 → a i = b i) : field64 a o = field64 b o := by
  simp only [field64, load_congr h]

section
variable {b src : Bytes} {o n p v : Nat}

theorem field32_store_same (x : BitVec 32) : field32 (store b o 4 x.toNat) o = x := by
  simp only [field32, load_store_same]
  apply BitVec.eq_of_toNat_eq
  have := x.isLt
  simp only [BitVec.toNat_ofNat]
  omega

theorem store_outside {i : Nat} (h : i < o ∨ o + n ≤ i) : store b o n v i = b i := blit_outside h

end

/-! ### Records found in a buffer -/

/-- A field that was read gives back the bytes it was read from. -/
theorem leBytes_load (b : Bytes) (o : Nat) {n i : Nat} (h : i < n) : leBytes (load b o n) i = b (o + i) := by
  induction n generalizing o i with
  | zero => omega
  | succ n ih =>
    have hlt := (b o).isLt
    cases i with
    | zero =>
      apply BitVec.eq_of_toNat_eq
      simp only [leBytes, load_succ, BitVec.toNat_ofNat, Nat.pow_zero, Nat.div_one, Nat.add_zero]
      omega
    | succ i =>
      have htail : load b o (n + 1) / 256 ^ (i + 1) = load b (o + 1) n / 256 ^ i := by
        have hdiv : load b o (n + 1) / 256 = load b (o + 1) n := by
          rw [load_succ]
          omega
        rw [Nat.pow_succ', ← Nat.div_div_eq_div_mul, hdiv]
      have hi := ih (o + 1) (Nat.lt_of_succ_lt_succ h)
      rw [Nat.add_assoc, Nat.add_comm 1 i] at hi
      rw [← hi, leBytes, leBytes, htail]

/-- A field put behind contents that agree with a buffer, with the value the buffer
has there. -/
theorem store_restored {a b : Bytes} {o n v : Nat} (hsame : ∀ i < o, a i = b i)
    (hv : v = load b o n) {i : Nat} (hi : i < o + n) : store a o n v i = b i := by
  by_cases hlt : i < o
  · rw [store_outside (.inl hlt), hsame i hlt]
  · obtain ⟨k, rfl⟩ := Nat.exists_eq_add_of_le (Nat.le_of_not_lt hlt)
    have hk : k < n := by omega
    rw [store, blit_inside hk, hv, leBytes_load b o hk]

/-- The fields of a record stand in a buffer from offset `o` on. -/
def Stands (b : Bytes) : Nat → List (Nat × Nat) → Prop
  | _, [] => True
  | o, (w, v) :: fs => v = load b o w ∧ Stands b (o + w) fs

theorem stands_append {b : Bytes} {o : Nat} {fs gs : List (Nat × Nat)} :
    Stands b o (fs ++ gs) ↔ Stands b o fs ∧ Stands b (o + packWidth fs) gs := by
  induction fs generalizing o with
  | nil => simp [Stands]
  | cons f fs ih =>
    obtain ⟨w, v⟩ := f
    rw [List.cons_append, Stands, Stands, ih, packWidth_cons, Nat.add_assoc, and_assoc]

theorem Stands.append {b : Bytes} {o : Nat} {fs gs : List (Nat × Nat)} (hf : Stands b o fs)
    (hg : Stands b (o + packWidth fs) gs) : Stands b o (fs ++ gs) :=
  stands_append.mpr ⟨hf, hg⟩

theorem Stands.congr {a b : Bytes} {o : Nat} {fs : List (Nat × Nat)} (h : Stands a o fs)
    (hsame : ∀ i < o + packWidth fs, a i = b i) : Stands b o fs := by
  induction fs generalizing o with
  | nil => trivial
  | cons f fs ih =>
    obtain ⟨w, v⟩ := f
    rw [packWidth_cons] at hsame
    refine ⟨?_, ih h.2 fun i hi => hsame i (by omega)⟩
    rw [h.1]
    exact load_congr fun i _ hi => hsame i (by omega)

/-- Fields that fit their widths stand in the record made of them. -/
theorem stands_pack (gs : List (Nat × Nat)) {fs : List (Nat × Nat)} (h : ∀ f ∈ fs, f.2 < 256 ^ f.1) :
    Stands (Lib.pack (gs ++ fs)) (packWidth gs) fs := by
  induction fs generalizing gs with
  | nil => trivial
  | cons f fs ih =>
    obtain ⟨w, v⟩ := f
    refine ⟨?_, ?_⟩
    · rw [← Nat.add_zero (packWidth gs), load_right _ rfl, load_pack_head]
      exact (Nat.mod_eq_of_lt (h (w, v) List.mem_cons_self)).symm
    · have hrest := ih (gs ++ [(w, v)]) fun f hf => h f (List.mem_cons_of_mem _ hf)
      simpa using hrest

/-- A record whose fields stand in a buffer is that part of the buffer. -/
theorem Stands.pack {b : Bytes} {o : Nat} {fs : List (Nat × Nat)} (h : Stands b o fs) {i : Nat}
    (hi : i < packWidth fs) : pack fs i = b (o + i) := by
  induction fs generalizing o i with
  | nil => simp at hi
  | cons f fs ih =>
    obtain ⟨w, v⟩ := f
    obtain ⟨rfl, hrest⟩ := h
    rw [packWidth_cons] at hi
    simp only [Lib.pack]
    split
    · rename_i hw
      exact leBytes_load b o hw
    · rw [ih hrest (by omega)]
      congr 1
      omega

theorem stands_byteFields {b : Bytes} {o : Nat} {bs : List Byte} :
    Stands b o (byteFields bs) ↔ ∀ i (hi : i < bs.length), bs[i] = b (o + i) := by
  induction bs generalizing o with
  | nil => simp [byteFields, Stands]
  | cons c bs ih =>
    have hcons : byteFields (c :: bs) = (1, c.toNat) :: byteFields bs := rfl
    have hhead : c.toNat = load b o 1 ↔ c = b o := by
      simp only [load, Nat.mul_zero, Nat.add_zero]
      exact BitVec.toNat_inj
    rw [hcons, Stands, ih, hhead]
    constructor
    · rintro ⟨rfl, hbs⟩ i hi
      cases i with
      | zero => rfl
      | succ i =>
        rw [List.getElem_cons_succ, hbs i (by simpa using hi), Nat.add_right_comm, Nat.add_assoc]
    · intro hall
      refine ⟨hall 0 (Nat.succ_pos _), fun i hi => ?_⟩
      have hi' := hall (i + 1) (by simpa using hi)
      rw [List.getElem_cons_succ] at hi'
      rw [hi', Nat.add_right_comm, Nat.add_assoc]

/-- A field of zero bytes reads as zero. -/
theorem load_eq_zero {b : Bytes} {o n : Nat} (h : ∀ i, o ≤ i → i < o + n → b i = 0) : load b o n = 0 := by
  rw [← load_zeros o n]
  exact load_congr fun i hl hu => h i hl hu

theorem field64_toNat (b : Bytes) (o : Nat) : (field64 b o).toNat = load b o 8 := by
  have h := load_lt b o 8
  simp only [field64, BitVec.toNat_ofNat]
  exact Nat.mod_eq_of_lt h

/-! ### Checksums -/

/-- One bit of the reflected CRC-32. -/
def crcBit (crc : BitVec 32) : BitVec 32 := (crc >>> 1) ^^^ (0xEDB88320#32 &&& -(crc &&& 1#32))

def crcByte (crc : BitVec 32) (p : Byte) : BitVec 32 := Nat.repeat crcBit 8 (crc ^^^ p.setWidth 32)

def crc32 (bs : List Byte) : BitVec 32 := ~~~(bs.foldl crcByte 0xFFFFFFFF#32)

end CapyOS.Lib
