import R3000.Memory.Bank
import R3000.Memory.Region
import R3000.Source

/-!
# Memory

The stores of the machine behind one address map, and the record of the pages of main memory that
translated code came from.  A write to such a page puts it in the queue of dirty pages and takes its mark
away, so a page waits in the queue once for each time that it was marked and then written.

An access to a device register goes to a `Window`, which the memory does not own.
-/

namespace R3000

/-- Bytes in a page, the unit of code marks. -/
def pageBytes : Nat := 0x1000

/-- Pages of main memory. -/
def ramPages : Nat := 4 * ramWords / pageBytes

/-- A page of main memory. -/
abbrev Page := Fin ramPages

/-- What answers the device registers; `σ` is all that an access may change. -/
structure Window (σ : Type) where
  read : UInt32 → Width → σ → UInt32 × σ
  write : UInt32 → UInt32 → Width → σ → σ

/-- The window with nothing behind it: reads give zero. -/
def Window.vacant (σ : Type) : Window σ where
  read _ _ s := (0, s)
  write _ _ _ s := s

/-- The stores, the cache control register, the code marks and the queue of dirty pages. -/
structure Memory where
  ram : Bank ramWords
  scratchpad : Bank scratchpadWords
  bios : Bank biosWords
  cacheControl : UInt32
  codePages : Vector Bool ramPages
  dirty : Array Page

/-- Main memory at power-on. -/
def blankRam : Bank ramWords := .zero ramWords

/-- A boot ROM without an image. -/
def blankBios : Bank biosWords := .zero biosWords

namespace Memory

/-- Memory with a boot image; a short image leaves zeros, and the excess of a long one is dropped. -/
def ofBios (image : ByteArray) : Memory where
  ram := blankRam
  scratchpad := .zero scratchpadWords
  bios := blankBios.blit 0 image
  cacheControl := 0
  codePages := .replicate ramPages false
  dirty := #[]

/-! ### Code marks -/

/-- Whether translated code came from the page since its last write. -/
def isCode (m : Memory) (p : Page) : Bool := m.codePages[p]

/-- Whether bytes `first` to `last` of main memory reach into the page. -/
def touches (first last : Nat) (p : Page) : Bool :=
  first / pageBytes ≤ p && p ≤ last / pageBytes

/-- Marks the pages that hold the `len` bytes of code at `addr`; code outside main memory never changes. -/
def markCode (m : Memory) (addr len : UInt32) : Memory :=
  match Region.ofAddress addr with
  | .ram start =>
    let stop := min (start + max len.toNat 1) (4 * ramWords)
    { m with codePages := m.codePages.mapFinIdx fun p marked h => marked || touches start (stop - 1) ⟨p, h⟩ }
  | _ => m

/-- Notes a write to the page: a marked page loses its mark and joins the queue. -/
def touch (m : Memory) (p : Page) : Memory :=
  if m.codePages[p] then
    { m with codePages := m.codePages.set p false, dirty := m.dirty.push p }
  else m

/-- Forgets all marks and the queue. -/
def clearCodeMarks (m : Memory) : Memory :=
  { m with codePages := .replicate ramPages false, dirty := #[] }

/-- Whether a written code page waits. -/
def hasDirty (m : Memory) : Bool := !m.dirty.isEmpty

/-- Takes the queue of dirty pages, oldest first. -/
def takeDirty (m : Memory) : Array Page × Memory :=
  (m.dirty, { m with dirty := #[] })

/-! ### Accesses -/

/-- The word of main memory around an offset, folded. -/
def ramWord (m : Memory) (offset : UInt32) : UInt32 :=
  m.ram.read .word (offset.toNat % (4 * ramWords))

/-- Copies bytes into main memory, cut at its end; every code page from the first byte's page up to the
end of the copy counts as written. -/
def loadRam (m : Memory) (offset : UInt32) (data : ByteArray) : Memory :=
  let start := min offset.toNat (4 * ramWords)
  let stop := min (start + data.size) (4 * ramWords)
  let m := { m with ram := m.ram.blit start data }
  (List.finRange ramPages).foldl
    (fun m (p : Page) => if start / pageBytes ≤ p ∧ p.val * pageBytes < stop then m.touch p else m) m

/-- The instruction word at an aligned address of main memory or the boot ROM. -/
def fetch (m : Memory) (addr : UInt32) : Option UInt32 :=
  if addr &&& 3 = 0 then
    match Region.ofAddress addr with
    | .ram i => some (m.ram.read .word i)
    | .bios i => some (m.bios.read .word i)
    | _ => none
  else none

/-- The words that blocks are made of. -/
def source (m : Memory) : Source := fun addr => (m.fetch addr).elim (.error (.memoryRead addr)) .ok

/-- A load, with the state of the window after it. -/
def load {σ : Type} (m : Memory) (window : Window σ) (addr : UInt32) (w : Width) (s : σ) : UInt32 × σ :=
  match Region.ofAddress addr with
  | .ram i => (m.ram.read w i, s)
  | .scratchpad i => (m.scratchpad.read w i, s)
  | .bios i => (m.bios.read w i, s)
  | .device r => window.read r w s
  | .cacheControl => (m.cacheControl &&& w.mask, s)
  | .expansion => (w.mask, s)
  | .unmapped => (0, s)

/-- Whether a store gets past the data cache: while the cache is isolated only the uncached segment does. -/
def passesCache (isolated : Bool) (addr : UInt32) : Bool :=
  !isolated || addr &&& 0xE0000000 == 0xA0000000

/-- A store, with the state of the window after it. -/
def store {σ : Type} (m : Memory) (window : Window σ) (isolated : Bool) (addr v : UInt32) (w : Width)
    (s : σ) : Memory × σ :=
  if passesCache isolated addr then
    match Region.ofAddress addr with
    | .ram i =>
      let m := { m with ram := m.ram.write w i v }
      (m.touch ⟨i / pageBytes, Nat.div_lt_of_lt_mul i.isLt⟩, s)
    | .scratchpad i => ({ m with scratchpad := m.scratchpad.write w i v }, s)
    | .device r => (m, window.write r v w s)
    | .cacheControl => ({ m with cacheControl := v }, s)
    | .bios _ | .expansion | .unmapped => (m, s)
  else (m, s)

/-- One line on the cache control register and the waiting pages. -/
def summary (m : Memory) : String :=
  let pages := ", ".intercalate (m.dirty.toList.map fun p => toString p.val)
  s!"Memory \x7b cache_control: {m.cacheControl}, dirty: [{pages}], .. \x7d"

end Memory

end R3000
