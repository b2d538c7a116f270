import Mathlib
import R3000.Proofs.Events.Pending
import R3000.Proofs.Running

/-!
# Events and devices

Devices and running code change the pending events only through requests, and no request moves a video
event.  So what adding and dropping other events keeps, every answer of a device keeps; and what the answers
of the devices keep, every service and every chain of blocks keeps.
-/

namespace R3000

variable {δ : Type} {hw : Hardware δ} {now : UInt64} {J : Schedule → Prop}

/-- A property of schedules that the requests which are granted keep. -/
structure Schedule.Granted (J : Schedule → Prop) : Prop where
  add : ∀ s k deadline, k.isVideo = false → J s → J (s.add k deadline .device)
  erase : ∀ s k, k.isVideo = false → J s → J (s.erase k)

/-- Only batches have their callback. -/
lemma EventKind.eq_hblank {k : EventKind} (h : k.callback = .batch) : k = .hblank := by
  cases k <;> first | rfl | cases h

namespace Schedule

lemma granted_and {J' : Schedule → Prop} (h : Granted J) (h' : Granted J') :
    Granted fun s => J s ∧ J' s where
  add s k deadline hk hs := ⟨h.add s k deadline hk hs.1, h'.add s k deadline hk hs.2⟩
  erase s k hk hs := ⟨h.erase s k hk hs.1, h'.erase s k hk hs.2⟩

lemma granted_tidy : Granted Tidy where
  add _ k deadline _ hs := hs.add k deadline .device
  erase _ k _ hs := hs.erase k

lemma granted_follows (s : Schedule) : Granted s.Follows where
  add _ _ _ _ hs := hs.trans (.add ..)
  erase _ _ _ hs := hs.trans (.erase ..)

/-- Every pending event has the callback of its kind. -/
def Routed (s : Schedule) : Prop := ∀ k p, s.get? k = some p → p.callback = k.callback

lemma Routed.add {s : Schedule} (h : s.Routed) {k : EventKind} {c : Callback} (hc : c = k.callback)
    (deadline : UInt64) : (s.add k deadline c).Routed := by
  intro j p hp
  rw [get?_add] at hp
  split at hp
  · rename_i hj
    cases hp
    exact hj ▸ hc
  · exact h j p hp

lemma Routed.erase {s : Schedule} (h : s.Routed) (k : EventKind) : (s.erase k).Routed := by
  intro j p hp
  rw [get?_erase] at hp
  split at hp
  · cases hp
  · exact h j p hp

lemma Routed.clear (s : Schedule) : s.clear.Routed := by
  intro j p hp
  rw [get?_clear] at hp
  cases hp

/-- The devices are told of the events that they asked for. -/
lemma granted_routed : Granted Routed where
  add s k deadline hk hs := hs.add (by cases k <;> first | rfl | cases hk) deadline
  erase _ k _ hs := hs.erase k

/-- No request moves a video event. -/
lemma granted_video {v : EventKind} (hv : v.isVideo = true) (p : Option Pending) :
    Granted fun s => s.get? v = p where
  add s k deadline hk hs := by
    rw [get?_add, if_neg, hs]
    rintro rfl
    rw [hv] at hk
    cases hk
  erase s k hk hs := by
    rw [get?_erase, if_neg, hs]
    rintro rfl
    rw [hv] at hk
    cases hk

end Schedule

namespace Io

variable {io : Io δ}

lemma schedule_grant (hJ : Schedule.Granted J) (r : Request) (h : J io.schedule) : J (io.grant r).schedule := by
  cases r with
  | schedule k deadline =>
    rw [grant]
    split
    · exact h
    · rename_i hk
      exact hJ.add _ k deadline (by simpa using hk) h
  | cancel k =>
    rw [grant]
    split
    · exact h
    · rename_i hk
      exact hJ.erase _ k (by simpa using hk) h
  | signal number => exact h

lemma schedule_accept (hJ : Schedule.Granted J) (r : Response δ) (h : J io.schedule) :
    J (io.accept r).schedule := by
  rw [accept]
  refine List.foldlRecOn (motive := fun io : Io δ => J io.schedule) r.requests _ h ?_
  intro io hio request _
  exact schedule_grant hJ request hio

end Io

/-- A property of schedules that the devices' answers to reads and writes keep. -/
structure Hardware.Keeps (hw : Hardware δ) (J : Schedule → Prop) : Prop where
  read : ∀ now addr w (io : Io δ), J io.schedule → J (io.accept (hw.read now addr w io.device)).schedule
  write : ∀ now addr v w (io : Io δ), J io.schedule → J (io.accept (hw.write now addr v w io.device)).schedule

lemma Schedule.Granted.keeps (hJ : Schedule.Granted J) (hw : Hardware δ) : hw.Keeps J where
  read _ _ _ _ h := Io.schedule_accept hJ _ h
  write _ _ _ _ _ h := Io.schedule_accept hJ _ h

/-- Without devices no read and no write changes the events. -/
lemma Hardware.keeps_absent (δ : Type) (J : Schedule → Prop) : (Hardware.absent δ).Keeps J where
  read _ _ _ _ h := h
  write _ _ _ _ _ h := h

/-- A property of what stands behind the device window that running code keeps: reads and writes through the window
do, and commands of the geometry coprocessor, which change nothing but the devices. -/
structure Hardware.KeepsIo (hw : Hardware δ) (now : UInt64) (J : Io δ → Prop) : Prop where
  read : ∀ addr w io, J io → J ((Io.window hw now).read addr w io).2
  write : ∀ addr v w io, J io → J ((Io.window hw now).write addr v w io)
  device : ∀ (io : Io δ) device, J io → J { io with device }

/-- The pending events are not among the registers of the interrupt controller. -/
lemma Hardware.Keeps.io (hJ : hw.Keeps J) (now : UInt64) : hw.KeepsIo now fun io => J io.schedule where
  read addr w io h := by
    dsimp only [Io.window]
    split
    · exact h
    · exact hJ.read now addr w io h
  write addr v w io h := by
    dsimp only [Io.window]
    split
    · exact h
    · exact hJ.write now addr v w io h
  device _ _ h := h

namespace Board

variable {b : Board δ} {K : Io δ → Prop}

lemma io_load (hK : hw.KeepsIo now K) (addr : UInt32) (w : Width) (h : K b.io) : K (b.load hw now addr w).2.io := by
  dsimp only [load, Memory.load]
  split
  case h_4 => exact hK.read _ w _ h
  all_goals exact h

lemma io_store (hK : hw.KeepsIo now K) (isolated : Bool) (addr v : UInt32) (w : Width) (h : K b.io) :
    K (b.store hw now isolated addr v w).io := by
  dsimp only [store, Memory.store]
  split
  · split
    case h_3 => exact hK.write _ v w _ h
    all_goals exact h
  · exact h

lemma io_serveLoad (hK : hw.KeepsIo now K) (w : Width) (addr : UInt32) (c : Cpu) (h : K b.io) :
    K (serveLoad hw now w addr c b).rest.io := by
  rw [serveLoad]
  split
  · exact io_load hK addr w h
  · exact h

lemma io_serveStore (hK : hw.KeepsIo now K) (w : Width) (addr v : UInt32) (c : Cpu) (h : K b.io) :
    K (serveStore hw now w addr v c b).rest.io := by
  rw [serveStore]
  split
  · exact io_store hK _ addr _ w h
  · exact h

lemma io_serveCop2 (hK : hw.KeepsIo now K) (word : UInt32) (c : Cpu) (h : K b.io) :
    K (serveCop2 hw now word c b).rest.io := by
  rw [serveCop2]
  split
  · split
    · split
      · exact h
      · exact hK.device _ _ h
    · rw [serveCop2Load]
      dsimp only
      split
      · exact io_load hK _ _ h
      · exact h
    · exact io_serveStore hK _ _ _ c h
    · exact h
  · exact h

/-- What the device window keeps, every service keeps. -/
lemma io_serve (hK : hw.KeepsIo now K) (service : Service) (x y : UInt32) (c : Cpu) (h : K b.io) :
    K (serve hw now service x y c b).rest.io := by
  cases service with
  | loadByte | loadHalf | loadWord => exact io_serveLoad hK _ x c h
  | loadWordLeft | loadWordRight => exact io_load hK _ _ h
  | storeByte | storeHalf | storeWord => exact io_serveStore hK _ x y c h
  | storeWordLeft | storeWordRight => exact io_store hK _ _ _ _ (io_load hK _ _ h)
  | cop2 => exact io_serveCop2 hK x c h
  | mfc0 | mtc0 | rfe | syscall | breakpoint | divide | divideUnsigned | overflow | reserved => exact h

/-- What the device window keeps, running code keeps. -/
theorem io_run (hK : hw.KeepsIo now K) (store : CodeStore Block) (code : Block) (budget : Int32) (c : Cpu)
    (h : K b.io) : K (Chain.run (Block.enter (serve hw now)) store code budget c b).rest.io := by
  refine Chain.run_keeps (J := fun b : Board δ => K b.io) ?_ store code budget c h
  intro b left c s hs
  refine Block.enter_keeps (J := fun b : Board δ => K b.io) ?_ b left c hs
  intro service x y c s hs
  exact io_serve hK service x y c hs

/-- What the devices keep, running code keeps. -/
theorem schedule_run (hw : Hardware δ) (now : UInt64) (hJ : hw.Keeps J) (store : CodeStore Block) (code : Block)
    (budget : Int32) (c : Cpu) (h : J b.io.schedule) :
    J (Chain.run (Block.enter (serve hw now)) store code budget c b).rest.io.schedule :=
  io_run (hJ.io now) store code budget c h

end Board

end R3000
