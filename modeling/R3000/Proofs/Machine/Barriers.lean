import Mathlib
import R3000.Proofs.Machine.Entries

/-!
# Barriers

After an instruction that writes a system control register the dispatcher has to look whether to take an
interrupt.  In the body of a block such an instruction is the last one, and the block leaves to the dispatcher.
In a delay slot it is a barrier only if the transfer goes through a register: a jump or a branch to a known
address hops on if its exit is linked, and the dispatcher looks only when the chain ends.
-/

namespace R3000

/-- Whether an instruction writes a system control register. -/
def Instr.writesControl : Instr → Bool
  | mtc0 .. | rfe => true
  | _ => false

lemma Instr.endsBlock_of_writesControl {i : Instr} (h : i.writesControl = true) : i.endsBlock = true := by
  cases i <;> first | rfl | simp [writesControl] at h

namespace Plan

/-! ### Where a barrier stands -/

/-- What is gathered has no barrier before its last instruction, and none at all before a transfer. -/
lemma endsBlock_of_gather (source : Source) (cap : Nat) (pc : UInt32) (taken : List Instr)
    (htaken : ∀ i ∈ taken, i.endsBlock = false) :
    let g := gather source true cap pc taken
    (∀ i ∈ g.body.dropLast, i.endsBlock = false) ∧ (g.ending.isSome → ∀ i ∈ g.body, i.endsBlock = false) := by
  have hreverse : ∀ i ∈ taken.reverse, i.endsBlock = false := fun i hi => htaken i (List.mem_reverse.mp hi)
  have hlast : ∀ i ∈ taken.reverse.dropLast, i.endsBlock = false :=
    fun i hi => hreverse i (List.mem_of_mem_dropLast hi)
  fun_induction gather source true cap pc taken with
  | case1 => exact ⟨hlast, fun _ => hreverse⟩
  | case2 => exact ⟨hlast, fun _ => hreverse⟩
  | case3 => exact ⟨hlast, fun _ => hreverse⟩
  | case4 cap pc taken w hw i hi husable hends =>
    refine ⟨?_, by simp⟩
    rw [List.reverse_cons, List.dropLast_concat]
    exact hreverse
  | case5 cap pc taken w hw i hi husable hends ih =>
    have hmore : ∀ j ∈ i :: taken, j.endsBlock = false :=
      List.forall_mem_cons.mpr ⟨by simpa using hends, htaken⟩
    exact ih hmore (fun j hj => hmore j (List.mem_reverse.mp hj))
      fun j hj => hmore j (List.mem_reverse.mp (List.mem_of_mem_dropLast hj))
  | case6 cap pc taken w hw i hi husable => exact absurd (usable_true i) husable

/-- A barrier in the body of a plan is its last instruction, and ends it. -/
theorem endsAtBarrier_of_mem {source : Source} {pc cap : UInt32} {p : Plan}
    (h : ofSource source true pc cap = .ok p) {i : Instr} (hi : i ∈ p.body) (hends : i.endsBlock = true) :
    p.ending = none ∧ p.endsAtBarrier = true := by
  obtain ⟨-, -, hgather⟩ := ofSource_eq_ok.mp h
  obtain ⟨hbody, hending⟩ := endsBlock_of_gather source (max cap.toNat 1) pc [] (by simp)
  rw [← hgather] at hbody hending
  have hnone : p.ending = none := by
    by_contra hsome
    simp [hending (Option.isSome_iff_ne_none.mpr hsome) i hi] at hends
  refine ⟨hnone, ?_⟩
  obtain ⟨is, last, hlast⟩ := (List.eq_nil_or_concat' p.body).resolve_left (List.ne_nil_of_mem hi)
  rw [hlast] at hi hbody
  rw [List.dropLast_concat] at hbody
  obtain rfl : i = last := by
    rcases List.mem_append.mp hi with hi | hi
    · simp [hbody i hi] at hends
    · exact List.mem_singleton.mp hi
  simp [endsAtBarrier, hnone, hlast, hends]

end Plan

/-! ### Chains -/

section

variable {σ : Type}

/-- An instruction in the delay slot of a jump or a branch to a known address, with cycles left after it, whose exit
is linked to a block. -/
structure Visit.HopsAt (host : Host σ) (store : CodeStore Block) (v : Visit σ) (p : Point σ) : Prop where
  slot : ∃ e, v.code.plan.ending = some e ∧ e.delay = some p.instr ∧ p.pc = v.code.plan.endingPc + 4 ∧
    ∀ rs link, e.transfer ≠ .jumpReg rs link
  linked : ∃ x ∈ v.code.exits, x.target = (v.departed host).cpu.pc ∧
    ∃ code, store.word? x.site = some (.block code)
  cycles : 0 < (v.departed host).departure.left

/-- A block with a barrier hops only if the barrier stands in the delay slot of a jump or a branch to a known
address. -/
lemma Visit.hopsAt {host : Host σ} {store : CodeStore Block} {v : Visit σ} {p : Point σ} {pc : UInt32}
    {e : Entry Block} (he : e.PlannedAt pc) (hcode : e.code = v.code) (hp : v.Comes host p)
    (hi : p.instr.endsBlock = true) {site : Site} {left : Int32} {code : Block}
    (hhop : (v.departed host).departure = .hop site left) (hword : store.word? site = some (.block code)) :
    v.HopsAt host store p := by
  obtain ⟨⟨x, hx, rfl, htarget⟩, l, c, s, -, hgoes⟩ := v.exists_exit_of_hop hhop
  refine ⟨?_, ⟨x, hx, htarget, code, hword⟩, ?_⟩
  · obtain ⟨memory, cap, hplan⟩ := he.plan
    rw [hcode] at hplan
    cases hp with
    | @body before after i left' c s hbody hsteps =>
      have hmem : i ∈ v.code.plan.body := by simp [hbody]
      obtain ⟨hnone, hbarrier⟩ := Plan.endsAtBarrier_of_mem hplan hmem hi
      simp [hnone, hbarrier] at hgoes
    | @slot ending i left' c s hending hslot hsteps =>
      refine ⟨ending, hending, hslot, rfl, fun rs link htransfer => ?_⟩
      simp [hending, Ending.GoesTo, htransfer] at hgoes
  · rw [hhop]
    exact Block.hop_pos hhop

end

namespace Machine

variable {δ : Type} {hw : Hardware δ} {hooks : Hooks δ} {settings : Settings}
  {m₀ h x : Machine TranslatorStats Block δ} {e : Entry Block} {deadline : UInt64} {n : Nat}
  {v : Visit (Board δ)} {p : Point (Board δ)}

/-- Once an instruction that writes a system control register was carried out in some block of a dispatch, the
dispatch ends with that block, and the dispatcher looks whether to take an interrupt before any other block runs;
unless the instruction stands in the delay slot of a jump or a branch to a known address, cycles are left, and the
exit is linked: then the chain goes on. -/
theorem control_barrier {bios : ByteArray} {device : δ}
    (hstart : ofTranslator (.standard hw hooks) settings bios device {} = .ok m₀)
    (hm : AtHead (.standard hw hooks) m₀ h) (hs : h.Starts (.standard hw hooks) deadline e x)
    (hv : x.Visits hw e deadline n v) (hp : v.Comes (Board.serve hw x.cycles) p)
    (hi : p.instr.writesControl = true) :
    (let ended := (x.settle e (x.budget deadline) (v.last (Board.serve hw x.cycles))).dropDirtyCode
      let looked := (ended.syncInterrupts (.standard hw hooks)).fastForward e deadline
      (∀ w, ¬ x.Visits hw e deadline (n + 1) w) ∧
        h.pass (.standard hw hooks) deadline = (if looked.1 then .skipped else .again, looked.2)) ∨
    v.HopsAt (Board.serve hw x.cycles) x.recompiler.store p ∧ ∃ w, x.Visits hw e deadline (n + 1) w := by
  have hready := hs.ready_of_atHead hstart hm
  have hfirst : ∃ pc a, x.recompiler.cache.get? pc = some a ∧ a.code = (x.visit e deadline).code :=
    ⟨_, e, hready.cached, rfl⟩
  by_cases hhop : ∃ site left code, (v.departed (Board.serve hw x.cycles)).departure = .hop site left ∧
      x.recompiler.store.word? site = some (.block code)
  · obtain ⟨site, left, code, hhop, hword⟩ := hhop
    obtain ⟨pc, a, ha, hcode⟩ := Chain.cached_of_visits hready.wired.sound hfirst hv
    exact .inr ⟨Visit.hopsAt (hready.stocked.planned pc a ha) hcode hp (Instr.endsBlock_of_writesControl hi)
      hhop hword, _, hv.hop hhop hword⟩
  · have hlast : ∀ site left code, (v.departed (Board.serve hw x.cycles)).departure = .hop site left →
        x.recompiler.store.word? site ≠ some (.block code) :=
      fun site left code hdeparture hword => hhop ⟨site, left, code, hdeparture, hword⟩
    have hreturned := Chain.returned_of_last hready.wired.sound hfirst hv hlast
    have hpass := hs.pass_eq
    rw [runBlock_eq_settle_visit, hreturned] at hpass
    refine .inl ⟨fun w hw => ?_, hpass⟩
    cases hw with
    | hop hw hhop' hword =>
      obtain rfl := Chain.visits_unique hv hw
      exact hlast _ _ _ hhop' hword

/-- A boot ROM that begins with a write to the status register. -/
def statusRom : ByteArray := ⟨#[0, 0x60, 0x80, 0x40]⟩

lemma source_statusRom : (Memory.ofBios statusRom).source resetVector = .ok 0x40806000 := by
  rw [Memory.source_ofBios (by decide)]
  decide

/-- A new machine whose boot ROM begins with a write to the status register ends its first dispatch there. -/
theorem control_barrier_status :
    let P := Parts.standard (.absent Unit) (.none Unit)
    let settings : Settings := { limits := { cacheSlots := 1, poolNodes := 1, maxBlock := 1 } }
    ∃ m₀ x e v p, ofTranslator P settings statusRom () {} = .ok m₀ ∧ AtHead P m₀ m₀ ∧ m₀.Starts P 100 e x ∧
      x.Visits (.absent Unit) e 100 0 v ∧ v.Comes (Board.serve (.absent Unit) x.cycles) p ∧
        p.instr = .mtc0 0 Cpu.status ∧ ∀ w, ¬ x.Visits (.absent Unit) e 100 1 w := by
  intro P settings
  obtain ⟨m₀, e, x, hstart, hfind, hplan⟩ := findBlock_instr source_statusRom rfl
  have hm : AtHead P m₀ m₀ := ⟨m₀, 0, .start, .start⟩
  have hs : m₀.Starts P 100 e x := by
    obtain ⟨r, -, rfl⟩ := ofTranslator_eq_ok hstart
    exact {
      early := (by decide : (0 : UInt64) < 100)
      booted := rfl
      aligned := (by decide : resetVector &&& 3 = 0)
      found := ⟨_, intercept_of_none rfl _ _, hfind⟩ }
  let v := x.visit e 100
  have hbody : e.code.plan.body = [] ++ .mtc0 0 Cpu.status :: [] := by rw [hplan]; rfl
  have hp : v.Comes (Board.serve (.absent Unit) x.cycles) _ := .body hbody rfl
  refine ⟨m₀, x, e, v, _, hstart, hm, hs, .first, hp, rfl, ?_⟩
  rcases control_barrier hstart hm hs .first hp rfl with ⟨hends, -⟩ | ⟨⟨⟨ending, hending, -⟩, -, -⟩, -⟩
  · exact hends
  · -- the block has no transfer
    change e.code.plan.ending = some ending at hending
    simp [hplan, Plan.single] at hending

end Machine

end R3000
