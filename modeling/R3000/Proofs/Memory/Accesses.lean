import Mathlib
import R3000.Proofs.Memory.Bytes
import R3000.Proofs.Memory.Edits

/-!
# Histories of accesses

Whatever the order in which a memory is read, written and copied into, a cell holds the byte that was last stored
there.  Reads, writes, fetches and copies fold images and align offsets each in their own way; all of them speak of the
same cells.
-/

namespace R3000

open Word

/-! ### Units of addresses -/

/-- The address of a byte of the aligned unit around an address. -/
def Width.address (w : Width) (addr : UInt32) (k : Nat) : UInt32 := (w.align addr.toNat + k).toUInt32

/-- The address lies in the segment that the data cache does not serve. -/
def Uncached (addr : UInt32) : Prop := 0xA0000000 ≤ addr ∧ addr < 0xC0000000

instance (addr : UInt32) : Decidable (Uncached addr) := inferInstanceAs (Decidable (_ ∧ _))

variable {addr v : UInt32} {s : Store} {i k : Nat} {w : Width}

lemma Width.toNat_address (w : Width) (addr : UInt32) (hk : k < w.bytes) :
    (w.address addr k).toNat = w.align addr.toNat + k := by
  have hlt : addr.toNat < 4 * 2 ^ 30 := addr.toNat_lt
  have hfits := w.align_add_bytes_le hlt
  exact UInt32.toNat_ofNat_of_lt' (by rw [UInt32.size]; omega)

/-- Aligning an address and folding it is to fold it and align the offset. -/
lemma cellOf_address (h : cellOf addr = some (s, i)) (hk : k < w.bytes) :
    cellOf (w.address addr k) = some (s, w.align i + k) := by
  rw [cellOf_eq_some, toNat_physical] at h ⊢
  rw [w.toNat_address addr hk]
  cases w <;> cases s <;>
    simp only [Width.align, Width.bytes, Store.base, Store.window, Store.words, ramWords, scratchpadWords] at h hk ⊢ <;>
    omega

lemma Memory.passesCache_iff (isolated : Bool) (addr : UInt32) :
    passesCache isolated addr = true ↔ isolated = false ∨ Uncached addr := by
  have hlt := addr.toNat_lt
  have hsegment : addr.toNat &&& 0xE0000000 = addr.toNat / 2 ^ 29 * 2 ^ 29 := and_high (a := 29) (b := 3) hlt
  have huncached : addr &&& 0xE0000000 = 0xA0000000 ↔ Uncached addr := by
    rw [← UInt32.toNat_inj, UInt32.toNat_and, Uncached, UInt32.le_iff_toNat_le, UInt32.lt_iff_toNat_lt]
    change (addr.toNat &&& 0xE0000000) = 0xA0000000 ↔ 0xA0000000 ≤ addr.toNat ∧ addr.toNat < 0xC0000000
    omega
  simp only [passesCache, Bool.or_eq_true, Bool.not_eq_true', beq_iff_eq, huncached]

/-- Nothing is stored at the addresses of the region. -/
def Region.Inert : Region → Prop
  | bios _ | expansion | unmapped => True
  | ram _ | scratchpad _ | device _ | cacheControl => False

/-! ### Accesses -/

/-- An access to a memory. -/
inductive Access
  | read (addr : UInt32) (w : Width)
  | write (isolated : Bool) (addr v : UInt32) (w : Width)
  /-- Bytes are copied into main memory. -/
  | copy (offset : UInt32) (data : ByteArray)

/-- The byte that an access stores in a cell, if it stores one there.  A write stores the bytes of its width in the
aligned unit, low byte first; a copy ends where main memory does. -/
def Access.stored? (x : Cell) : Access → Option UInt8
  | read _ _ => none
  | write isolated addr v w =>
    if isolated ∧ ¬ Uncached addr then none
    else
      match cellOf addr with
      | some (s, i) =>
        if x.1 = s ∧ w.align i ≤ x.2 ∧ x.2 < w.align i + w.bytes then some (byteOf v (x.2 - w.align i)) else none
      | none => none
  | copy offset data =>
    if x.1 = .ram ∧ x.2 < 4 * ramWords ∧ offset.toNat ≤ x.2 then data[x.2 - offset.toNat]? else none

namespace Memory

variable {σ : Type} {m m' : Memory} {window : Window σ} {isolated : Bool}

/-- Memory and what is behind the window after an access. -/
def perform (window : Window σ) (r : Memory × σ) : Access → Memory × σ
  | .read addr w => (r.1, (r.1.load window addr w r.2).2)
  | .write isolated addr v w => r.1.store window isolated addr v w r.2
  | .copy offset data => (r.1.loadRam offset data, r.2)

/-- Memory and what is behind the window after some accesses. -/
def run (window : Window σ) (history : List Access) (r : Memory × σ) : Memory × σ :=
  history.foldl (perform window) r

/-- The byte that was last stored in a cell, and the one that was there at first if none was. -/
def lastByte (history : List Access) (m : Memory) (x : Cell) : UInt8 :=
  (history.reverse.findSome? (Access.stored? x)).getD (m.cell x)

/-! ### What one access does -/

lemma touch_eq (m : Memory) (p : Page) : ∃ codePages dirty, m.touch p = { m with codePages, dirty } := by
  rw [touch]
  split
  · exact ⟨_, _, rfl⟩
  · exact ⟨_, _, rfl⟩

/-- A copy changes main memory, and the record of the pages of code. -/
lemma loadRam_eq (m : Memory) (offset : UInt32) (data : ByteArray) : ∃ codePages dirty,
    m.loadRam offset data =
      { m with ram := m.ram.blit (min offset.toNat (4 * ramWords)) data, codePages, dirty } := by
  have htouches : ∀ (cond : Page → Prop) [DecidablePred cond] (pages : List Page) (m : Memory),
      ∃ codePages dirty, pages.foldl (fun m p => if cond p then m.touch p else m) m = { m with codePages, dirty } := by
    intro cond _ pages
    induction pages with
    | nil => exact fun m => ⟨m.codePages, m.dirty, rfl⟩
    | cons p pages ih =>
      intro m
      rw [List.foldl_cons]
      split
      · obtain ⟨codePages, dirty, htouch⟩ := m.touch_eq p
        obtain ⟨codePages', dirty', hfold⟩ := ih (m.touch p)
        exact ⟨codePages', dirty', by rw [hfold, htouch]⟩
      · exact ih m
  obtain ⟨codePages, dirty, hfold⟩ := htouches
    (fun p => min offset.toNat (4 * ramWords) / pageBytes ≤ p ∧
      p.val * pageBytes < min (min offset.toNat (4 * ramWords) + data.size) (4 * ramWords))
    (List.finRange ramPages) { m with ram := m.ram.blit (min offset.toNat (4 * ramWords)) data }
  exact ⟨codePages, dirty, hfold⟩

/-- A copy stores the bytes that lie before the end of main memory. -/
lemma byte_loadRam (m : Memory) (offset : UInt32) (data : ByteArray) (j : Nat) :
    (m.loadRam offset data).ram.byte j =
      if offset.toNat ≤ j ∧ j < min (offset.toNat + data.size) (4 * ramWords) then imageByte data (j - offset.toNat)
      else m.ram.byte j := by
  obtain ⟨codePages, dirty, hcopy⟩ := m.loadRam_eq offset data
  rw [hcopy, Bank.byte_blit]
  by_cases hin : offset.toNat ≤ j ∧ j < min (offset.toNat + data.size) (4 * ramWords)
  · have hstart : min offset.toNat (4 * ramWords) = offset.toNat := by omega
    rw [hstart, if_pos hin, if_pos (by omega)]
  · rw [if_neg hin, if_neg (by omega)]

/-- A write where there is no cell stores no byte. -/
lemma store_of_no_cell (h : cellOf addr = none) (m : Memory) (window : Window σ) (isolated : Bool) (v : UInt32)
    (w : Width) (x : σ) :
    ∃ cacheControl, (m.store window isolated addr v w x).1 = { m with cacheControl } := by
  rw [store]
  split
  · rw [cellOf] at h
    split at h <;> rename_i hregion
    case h_3 =>
      split
      all_goals first | exact ⟨_, rfl⟩ | simp_all
    all_goals cases h
  · exact ⟨_, rfl⟩

lemma store_of_blocked (h : ¬ (isolated = false ∨ Uncached addr)) (m : Memory) (window : Window σ) (v : UInt32)
    (w : Width) (x : σ) : m.store window isolated addr v w x = (m, x) := by
  rw [store, if_neg fun hpass => h ((passesCache_iff isolated addr).mp hpass)]

lemma getElem?_data (data : ByteArray) (j : Nat) :
    data[j]? = if j < data.size then some (imageByte data j) else none := by
  split
  · rename_i hj
    rw [getElem?_pos data j hj, imageByte, dif_pos hj]
  · rename_i hj
    exact getElem?_neg data j hj

/-- An access changes the cells that it stores in, and keeps the boot ROM. -/
lemma cell_perform (window : Window σ) (r : Memory × σ) (a : Access) :
    (perform window r a).1.bios = r.1.bios ∧
      ∀ x, (perform window r a).1.cell x = (a.stored? x).getD (r.1.cell x) := by
  obtain ⟨m, y⟩ := r
  cases a with
  | read addr w => exact ⟨rfl, fun _ => rfl⟩
  | write isolated addr v w =>
    by_cases hpass : isolated = false ∨ Uncached addr
    · have hopen : ¬ (isolated = true ∧ ¬ Uncached addr) := by
        rintro ⟨rfl, hcached⟩
        exact hpass.elim (by simp) hcached
      simp only [perform, Access.stored?, if_neg hopen]
      cases hcell : cellOf addr with
      | some p =>
        obtain ⟨s, i⟩ := p
        obtain ⟨-, hwrites⟩ := store_cell ((passesCache_iff isolated addr).mpr hpass) hcell m window w v y
        refine ⟨hwrites.bios, fun x => ?_⟩
        rw [hwrites.cell]
        dsimp only
        split <;> rfl
      | none =>
        obtain ⟨cacheControl, hstore⟩ := store_of_no_cell hcell m window isolated v w y
        rw [hstore]
        exact ⟨rfl, fun _ => rfl⟩
    · have hshut : isolated = true ∧ ¬ Uncached addr := by simpa using hpass
      have hstore := store_of_blocked hpass m window v w y
      refine ⟨congrArg (·.1.bios) hstore, fun x => ?_⟩
      rw [Access.stored?, if_pos hshut]
      exact congrArg (·.1.cell x) hstore
  | copy offset data =>
    obtain ⟨codePages, dirty, hcopy⟩ := m.loadRam_eq offset data
    refine ⟨by rw [perform, hcopy], ?_⟩
    rintro ⟨s, j⟩
    cases s with
    | scratchpad => simp [perform, hcopy, Access.stored?]
    | ram =>
      simp only [perform, cell_ram, byte_loadRam, Access.stored?, getElem?_data, true_and]
      by_cases hin : offset.toNat ≤ j ∧ j < min (offset.toNat + data.size) (4 * ramWords)
      · rw [if_pos hin, if_pos (by omega), if_pos (by omega), Option.getD_some]
      · rw [if_neg hin]
        split
        · rw [if_neg (by omega), Option.getD_none]
        · rfl

lemma bios_run (window : Window σ) (history : List Access) (r : Memory × σ) :
    (run window history r).1.bios = r.1.bios := by
  induction history generalizing r with
  | nil => rfl
  | cons a history ih => exact (ih (perform window r a)).trans (cell_perform window r a).1

/-- A cell holds the byte that was last stored in it. -/
lemma cell_run (window : Window σ) (history : List Access) (r : Memory × σ) (x : Cell) :
    (run window history r).1.cell x = lastByte history r.1 x := by
  induction history generalizing r with
  | nil => rfl
  | cons a history ih =>
    refine (ih (perform window r a)).trans ?_
    rw [lastByte, lastByte, (cell_perform window r a).2, List.reverse_cons, List.findSome?_append]
    cases history.reverse.findSome? (Access.stored? x) with
    | some b => rfl
    | none => cases hstored : a.stored? x <;> simp [hstored]

/-! ### Arrays of bytes -/

lemma load_cell (h : cellOf addr = some (s, i)) (w : Width) (x : σ) :
    m.load window addr w x = ((m.bank s).read w i, x) := by
  rw [cellOf] at h
  split at h <;> rename_i hregion <;> cases h <;> rw [load, hregion] <;> rfl

lemma load_of_fetch (h : m.fetch addr = some v) (x : σ) : m.load window addr .word x = (v, x) := by
  rw [fetch] at h
  split at h
  · split at h <;> rename_i hregion <;> cases h <;> rw [load, hregion]
  · cases h

/-- The unit of a width around an offset lies in the store, and its page among those of main memory. -/
def InBounds (m : Memory) (w : Width) : Region → Prop
  | .ram i => w.align i + w.bytes ≤ m.ram.bytes.size ∧ i / pageBytes < ramPages
  | .scratchpad i => w.align i + w.bytes ≤ m.scratchpad.bytes.size
  | .bios i => w.align i + w.bytes ≤ m.bios.bytes.size
  | .expansion | .device _ | .cacheControl | .unmapped => True

/-- After a history of accesses main memory and the scratchpad are arrays of bytes. -/
structure Bytewise (window : Window σ) (history : List Access) (first m : Memory) (x : σ) : Prop where
  /-- The images of a store are one after another, in every segment. -/
  fold : ∀ addr s i, cellOf addr = some (s, i) ↔ s.base ≤ addr.toNat % 2 ^ 29 ∧
    addr.toNat % 2 ^ 29 < s.base + s.window ∧ i = (addr.toNat % 2 ^ 29 - s.base) % (4 * s.words)
  /-- A read gives the bytes that were last stored behind the addresses from the aligned one on. -/
  read : ∀ addr w s i, cellOf addr = some (s, i) → (m.load window addr w x).2 = x ∧
    (∀ k < w.bytes, cellOf (w.address addr k) = some (s, w.align i + k)) ∧
      ∀ k < 4, byteOf (m.load window addr w x).1 k =
        if k < w.bytes then lastByte history first (s, w.align i + k) else 0
  /-- A write that gets past the cache changes the bytes of its width at the aligned offset, and nothing else. -/
  write : ∀ isolated addr v w s i, isolated = false ∨ Uncached addr → cellOf addr = some (s, i) →
    (m.store window isolated addr v w x).2 = x ∧ Writes s w i v m (m.store window isolated addr v w x).1
  inert : ∀ isolated addr v w, (Region.ofAddress addr).Inert → m.store window isolated addr v w x = (m, x)
  isolated : ∀ addr v w, ¬ Uncached addr → m.store window true addr v w x = (m, x)
  /-- A copy stores its bytes in main memory up to the end, and changes no other store. -/
  copy : ∀ offset data, let m' := m.loadRam offset data
    let start := min offset.toNat m.ram.bytes.size
    let stop := min (start + data.size) m.ram.bytes.size
    m'.scratchpad = m.scratchpad ∧ m'.bios = m.bios ∧ m'.cacheControl = m.cacheControl ∧
      ∀ j, if start ≤ j ∧ j < stop then data[j - start]? = some (m'.ram.byte j) else m'.ram.byte j = m.ram.byte j
  bios : m.bios = first.bios
  /-- Words are fetched where a read finds them, in main memory and the boot ROM. -/
  fetch : ∀ addr, ((m.fetch addr).isSome ↔ addr.toNat % 4 = 0 ∧ (addr.toNat % 2 ^ 29 < 0x800000 ∨
    0x1FC00000 ≤ addr.toNat % 2 ^ 29 ∧ addr.toNat % 2 ^ 29 < 0x1FC80000)) ∧
      ∀ v, m.fetch addr = some v → m.load window addr .word x = (v, x)
  ramWord : ∀ offset addr, cellOf addr = some (.ram, offset.toNat % (4 * ramWords)) →
    m.load window addr .word x = (m.ramWord offset, x)
  bounds : ∀ addr w, m.InBounds w (Region.ofAddress addr)

/-- Every history of accesses leaves main memory and the scratchpad arrays of bytes. -/
theorem run_bytewise (window : Window σ) (history : List Access) (m : Memory) (x : σ) :
    Bytewise window history m (run window history (m, x)).1 (run window history (m, x)).2 where
  fold addr s i := by rw [cellOf_eq_some, toNat_physical]
  read addr w s i h := by
    rw [load_cell h]
    refine ⟨rfl, fun k hk => cellOf_address h hk, fun k hk => ?_⟩
    have hlast : (run window history (m, x)).1.cell (s, w.align i + k) = lastByte history m (s, w.align i + k) :=
      cell_run ..
    rw [Bank.byteOf_read _ _ _ hk, ← hlast]
    rfl
  write isolated addr v w s i hpass h := store_cell ((passesCache_iff isolated addr).mpr hpass) h _ window w v _
  inert isolated addr v w h := by
    rw [store]
    split
    · split <;> simp_all [Region.Inert]
    · rfl
  isolated addr v w h := store_of_blocked (by simpa using h) _ window v w _
  copy offset data := by
    generalize (run window history (m, x)).1 = m
    have hsize := m.ram.size_bytes
    obtain ⟨codePages, dirty, hcopy⟩ := m.loadRam_eq offset data
    have hbyte := m.byte_loadRam offset data
    intro m' start stop
    refine ⟨by simp only [m', hcopy], by simp only [m', hcopy], by simp only [m', hcopy], fun j => ?_⟩
    by_cases hin : start ≤ j ∧ j < stop
    · have hstart : start = offset.toNat := by omega
      rw [if_pos hin, hbyte, if_pos (by omega), getElem?_data, if_pos (by omega), hstart]
    · rw [if_neg hin, hbyte, if_neg (by omega)]
  bios := bios_run window history (m, x)
  fetch addr := ⟨by rw [isSome_fetch, toNat_physical], fun v h => load_of_fetch h _⟩
  ramWord offset addr h := load_cell h .word _
  bounds addr w := by
    cases Region.ofAddress addr with
    | ram i => exact ⟨(w.align_add_bytes_le i.isLt).trans_eq (Bank.size_bytes _).symm, Nat.div_lt_of_lt_mul i.isLt⟩
    | scratchpad i => exact (w.align_add_bytes_le i.isLt).trans_eq (Bank.size_bytes _).symm
    | bios i => exact (w.align_add_bytes_le i.isLt).trans_eq (Bank.size_bytes _).symm
    | _ => trivial

end Memory

end R3000
