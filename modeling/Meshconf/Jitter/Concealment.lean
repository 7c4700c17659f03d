import Meshconf.Jitter.Timed

/-! # Which losses are concealed

The buffer sleeps until the first queued packet is due, so a slot is concealed only
while nothing is queued. With a target delay below the frame distance the queue is
empty whenever a lost slot falls due, and every slot is concealed in its turn. With a
delay above it the frame behind the gap is queued before the last lost slot is due.
-/

namespace Meshconf.Jitter

open Protocol Signal Transition History

namespace JitterBuffer

/-- `k` frames were lost between two frames that were received and played. -/
structure Loss (b : JitterBuffer) (first : MediaObject) (between : List MediaObject)
    (next : MediaObject) (k : ℕ) : Prop where
  played : ∃ before after, b.out = before ++ first :: (between ++ next :: after)
  frames : ¬ IsPlc first ∧ ¬ IsPlc next
  distance : next.captureTimestampUs = first.captureTimestampUs + frameUs * (k + 1)
  lost : ∀ obj ∈ b.arrived, ¬ (first.captureTimestampUs < obj.captureTimestampUs ∧
    obj.captureTimestampUs < next.captureTimestampUs)
  pos : 0 < k

end JitterBuffer

namespace Timed

open JitterBuffer

/-- The rounding of the smoothed offset is small beside the delays. -/
structure Tolerance (config : JitterBufferConfig) (e : ℕ) : Prop where
  delay : e < config.targetDelayUs
  finite : config.targetDelayUs < 2 ^ 61
  frame : 2 * e < frameUs
  late : 2 * e ≤ config.maxLateUs

/-- A target delay below the distance of frames, and a slot that is not at once too late. -/
def Short (config : JitterBufferConfig) (e : ℕ) : Prop :=
  config.targetDelayUs + e < frameUs ∧ 0 < config.maxLateUs

/-- How far behind the position reached an output lies. -/
def Spaced (config : JitterBufferConfig) (e : ℕ) (before : List Slot) : Slot → Prop
  | .play ts => ∀ m, Timeline frameUs before (some m) →
      ((∃ l, before = l ++ [.conceal]) → m + config.targetDelayUs ≤ ts + e) ∧
        (Short config e → ts = m + frameUs)
  | .conceal => 0 < config.maxLateUs

section Invariant

variable (config : JitterBufferConfig) (transit : ℤ) (e : ℕ)

/-- The invariant of buffer and stream at the start of a sleep. -/
structure Settled (b : JitterBuffer) (now : ℕ) (pending : List MediaObject) : Prop where
  config_eq : b.config = config
  master : b.isClockMaster = true
  plc : b.emitPlc = true
  inv : b.Inv
  offset : ∀ o ∈ b.clockOffsetUs, transit + config.targetDelayUs - e ≤ o ∧
    o ≤ transit + config.targetDelayUs + e
  unset : b.clockOffsetUs = none → b.queue.packets = [] ∧ b.lastEmittedTs = none
  stream : Stream transit (b.queue.packets ++ pending)
  arrived : ∀ obj ∈ b.queue.packets, obj.captureTimestampUs + transit ≤ now
  past : ∀ last ∈ b.lastEmittedTs, 0 ≤ last + transit ∧ last + transit ≤ now
  ahead : ∀ last ∈ b.lastEmittedTs, ∀ obj ∈ b.queue.packets ++ pending,
    Behind last obj.captureTimestampUs
  finite : now < 2 ^ 62
  fresh : ∀ front rest, b.queue.packets = front :: rest →
    now ≤ front.captureTimestampUs + transit + config.targetDelayUs + e
  spaced : Each (Spaced config e) (b.out.map slot)
  concealed : ∀ l, b.out.map slot = l ++ [.conceal] → ∀ last ∈ b.lastEmittedTs,
    ∀ obj ∈ b.queue.packets ++ pending, last + config.targetDelayUs ≤ obj.captureTimestampUs + e
  idle : Short config e → b.queue.packets = [] → ∀ last ∈ b.lastEmittedTs, ∀ o ∈ b.clockOffsetUs,
    ∃ m < 4, (now : ℤ) = last + o + 5000 * m
  single : Short config e → ∀ front rest, b.queue.packets = front :: rest →
    rest = [] ∧ (∀ o ∈ b.clockOffsetUs, now ≤ front.captureTimestampUs + o) ∧
      ∀ last ∈ b.lastEmittedTs, front.captureTimestampUs = last + frameUs

/-- The invariant, with the end of the sleep. -/
structure Steady (t : Timed) : Prop extends Settled config transit e t.buffer t.now t.pending where
  default : t.buffer.queue.packets = [] → t.deadline = t.now + 5000
  front : ∀ front rest, t.buffer.queue.packets = front :: rest → ∀ o ∈ t.buffer.clockOffsetUs,
    (t.deadline : ℤ) = max (t.now : ℤ) (front.captureTimestampUs + o)

end Invariant

variable {config : JitterBufferConfig} {transit : ℤ} {e now : ℕ} {t t' : Timed}
  {b b' : JitterBuffer} {pending frames : List MediaObject} {obj : MediaObject}

theorem Settled.due (htol : Tolerance config e) (h : Settled config transit e b now pending)
    (hobj : obj ∈ b.queue.packets) {o : ℤ} (ho : o ∈ b.clockOffsetUs) :
    0 ≤ obj.captureTimestampUs + o ∧ obj.captureTimestampUs + o < 2 ^ 63 := by
  have harrival := h.stream.arrival obj (List.mem_append_left _ hobj)
  have harrived := h.arrived obj hobj
  have hoffset := h.offset o ho
  have hfinite := h.finite
  obtain ⟨hdelay, hdelay', -, -⟩ := htol
  omega

theorem Settled.sleep (htol : Tolerance config e) (h : Settled config transit e b now pending)
    (hs : Timed.sleep b now pending = some t) : Steady config transit e t := by
  obtain ⟨rfl, rfl, rfl, hdefault, hfront⟩ := sleep_spec hs
  refine ⟨h, hdefault, fun front rest hqueue o ho => ?_⟩
  obtain ⟨hlo, hhi⟩ := h.due htol (by simp [hqueue] : front ∈ t.buffer.queue.packets) ho
  exact hfront front rest hqueue o ho hlo hhi

theorem Settled.init (hstream : Stream transit frames) (hnow : now < 2 ^ 62) :
    Settled config transit e (.new config true true none) now frames where
  config_eq := rfl
  master := rfl
  plc := rfl
  inv := .init config true true none
  offset := by simp [JitterBuffer.new]
  unset := fun _ => ⟨rfl, rfl⟩
  stream := hstream
  arrived := by simp [JitterBuffer.new, Queue.empty]
  past := by simp [JitterBuffer.new]
  ahead := by simp [JitterBuffer.new]
  finite := hnow
  fresh := by simp [JitterBuffer.new, Queue.empty]
  spaced := by simp [JitterBuffer.new]
  concealed := by simp [JitterBuffer.new]
  idle := by simp [JitterBuffer.new]
  single := by simp [JitterBuffer.new, Queue.empty]

theorem Steady.start (hstream : Stream transit frames) (hnow : now < 2 ^ 62) :
    Steady config transit e (start config now frames) where
  toSettled := .init hstream hnow
  default := fun _ => rfl
  front := by simp [Timed.start, JitterBuffer.new]

theorem Settled.set_of_last (h : Settled config transit e b now pending) {last : ℕ}
    (hlast : last ∈ b.lastEmittedTs) : ∃ o, o ∈ b.clockOffsetUs := by
  cases ho : b.clockOffsetUs with
  | none =>
    rw [(h.unset ho).2] at hlast
    cases hlast
  | some o => exact ⟨o, rfl⟩

theorem Settled.set_of_front (h : Settled config transit e b now pending)
    (hobj : obj ∈ b.queue.packets) : ∃ o, o ∈ b.clockOffsetUs := by
  cases ho : b.clockOffsetUs with
  | none =>
    rw [(h.unset ho).1] at hobj
    cases hobj
  | some o => exact ⟨o, rfl⟩

/-- What is queued is ahead of what is still under way. -/
theorem Settled.queued_behind (h : Settled config transit e b now pending) {a : MediaObject}
    (ha : a ∈ b.queue.packets) (hobj : obj ∈ pending) :
    Behind a.captureTimestampUs obj.captureTimestampUs :=
  (List.pairwise_append.mp h.stream.spaced).2.2 a ha obj hobj

theorem Settled.front_behind (h : Settled config transit e b now pending) {front : MediaObject}
    {rest : List MediaObject} (hqueue : b.queue.packets = front :: rest) (hobj : obj ∈ rest) :
    Behind front.captureTimestampUs obj.captureTimestampUs := by
  have hspaced := (List.pairwise_append.mp h.stream.spaced).1
  rw [hqueue] at hspaced
  exact (List.pairwise_cons.mp hspaced).1 obj hobj

/-- While a packet is queued, the sleep ends soon after its playout time at the latest. -/
theorem Steady.window (h : Steady config transit e t)
    {front : MediaObject} {rest : List MediaObject} (hqueue : t.buffer.queue.packets = front :: rest) :
    t.deadline ≤ front.captureTimestampUs + transit + config.targetDelayUs + e := by
  obtain ⟨o, ho⟩ := h.set_of_front (by simp [hqueue] : front ∈ t.buffer.queue.packets)
  have hdeadline := h.front front rest hqueue o ho
  have hfresh := h.fresh front rest hqueue
  have hoffset := h.offset o ho
  omega

/-- With a short delay nothing is queued when a frame arrives. -/
theorem Steady.empty_of_short (h : Steady config transit e t)
    (hshort : Short config e) {rest : List MediaObject} (hpending : t.pending = obj :: rest)
    (harrival : obj.captureTimestampUs + transit ≤ t.deadline) : t.buffer.queue.packets = [] := by
  cases hqueue : t.buffer.queue.packets with
  | nil => rfl
  | cons front later =>
    have hmem : front ∈ t.buffer.queue.packets := by simp [hqueue]
    have hbehind := (h.queued_behind hmem (by simp [hpending] : obj ∈ t.pending)).le
    obtain ⟨o, ho⟩ := h.set_of_front hmem
    have hdeadline := h.front front later hqueue o ho
    have hearly := (h.single hshort front later hqueue).2.1 o ho
    have hoffset := h.offset o ho
    unfold Short at hshort
    omega

/-- With a short delay a frame that arrives is the next one after what was played last. -/
theorem Steady.next_of_short (htol : Tolerance config e) (h : Steady config transit e t)
    (hshort : Short config e) (hnil : t.buffer.queue.packets = [])
    (hmem : obj ∈ t.buffer.queue.packets ++ t.pending)
    (harrival : obj.captureTimestampUs + transit ≤ t.deadline) {last : ℕ}
    (hlast : last ∈ t.buffer.lastEmittedTs) : obj.captureTimestampUs = last + frameUs := by
  obtain ⟨offset, hoffset⟩ := h.set_of_last hlast
  obtain ⟨m, hm, hnow⟩ := h.idle hshort hnil last hlast offset hoffset
  have hdefault := h.default hnil
  have hrange := h.offset offset hoffset
  obtain ⟨hdelay, -, -, -⟩ := htol
  apply (h.ahead last hlast obj hmem).eq
  unfold Short frameUs at *
  omega

/-- A frame that arrives is queued behind the others. -/
theorem Steady.receive (htol : Tolerance config e) (h : Steady config transit e t)
    {rest : List MediaObject} (hpending : t.pending = obj :: rest)
    (harrival : (now : ℤ) = obj.captureTimestampUs + transit) (hafter : t.now ≤ now)
    (hbefore : now ≤ t.deadline) (hfinite : now < 2 ^ 62) {instantaneous o : ℤ}
    (ho : transit + config.targetDelayUs - e ≤ o ∧ o ≤ transit + config.targetDelayUs + e)
    (hb' : b' = { (t.buffer.receive obj).setOffset instantaneous o with
      queue := t.buffer.queue.insert obj }) (hinv : b'.Inv) :
    Settled config transit e b' now rest := by
  subst hb'
  have hobj : obj ∈ t.pending := by simp [hpending]
  have hpackets := insert_last fun a ha => (h.queued_behind ha hobj).lt
  have hlist : (t.buffer.queue.insert obj).packets ++ rest = t.buffer.queue.packets ++ t.pending := by
    rw [hpackets, hpending]
    simp
  obtain ⟨hdelay, -, -, -⟩ := id htol
  refine
    { config_eq := h.config_eq
      master := h.master
      plc := h.plc
      inv := hinv
      offset := ?offset
      unset := nofun
      stream := hlist ▸ h.stream
      arrived := ?arrived
      past := ?past
      ahead := hlist ▸ h.ahead
      finite := hfinite
      fresh := ?fresh
      spaced := h.spaced
      concealed := hlist ▸ h.concealed
      idle := ?idle
      single := ?single }
  case offset =>
    rintro o' ho'
    cases ho'
    exact ho
  case arrived =>
    rintro a ha
    rw [hpackets] at ha
    rcases List.mem_append.mp ha with ha | ha
    · have := h.arrived a ha
      omega
    · cases List.mem_singleton.mp ha
      exact harrival.ge
  case past =>
    rintro last hlast
    obtain ⟨hlo, hhi⟩ := h.past last hlast
    exact ⟨hlo, by omega⟩
  case fresh =>
    rintro front later hfront
    rw [hpackets] at hfront
    rcases hold : t.buffer.queue.packets with - | ⟨front', later'⟩
    · rw [hold] at hfront
      cases hfront
      omega
    · rw [hold] at hfront
      cases hfront
      have := h.window hold
      omega
  case idle =>
    rintro - hempty
    rw [hpackets] at hempty
    simp at hempty
  case single =>
    rintro hshort front later hfront
    rw [hpackets] at hfront
    have hnil := h.empty_of_short hshort hpending (by omega)
    rw [hnil] at hfront
    cases hfront
    have hmem := List.mem_append_right t.buffer.queue.packets hobj
    refine ⟨rfl, ?_, fun last hlast => h.next_of_short htol hshort hnil hmem (by omega) hlast⟩
    rintro o' ho'
    cases ho'
    omega

theorem Steady.arrive (htol : Tolerance config e) (h : Steady config transit e t) {smoothed : ℤ}
    (hregular : Regular config transit e t (.arrive smoothed))
    (hs : step transit t (.arrive smoothed) = some t') : Steady config transit e t' := by
  obtain ⟨hlo, hhi, hdeadline⟩ := hregular
  obtain ⟨obj, rest, b', hpending, hafter, hbefore, hb', hsleep⟩ := step_arrive hs
  have hobj : obj ∈ t.pending := by simp [hpending]
  have hmem := List.mem_append_right t.buffer.queue.packets hobj
  obtain ⟨hpos, hts⟩ := h.stream.timestamp obj hmem
  have harrival : (arrivalUs transit obj : ℤ) = obj.captureTimestampUs + transit :=
    Int.toNat_of_nonneg (h.stream.arrival obj hmem)
  generalize arrivalUs transit obj = now at *
  obtain ⟨hdelay, hfinite, -, -⟩ := id htol
  have hconfig := h.config_eq
  obtain ⟨instantaneous, o, ho, heq⟩ := arrive_spec hb' h.master hpos hts (by omega)
    (by rw [hconfig]; omega) (fun m hm => (h.ahead m hm obj hmem).lt)
    (fun a ha => (h.queued_behind ha hobj).lt) (by omega) (by omega)
  rw [hconfig] at ho
  rw [← Arithmetic.checked_arrive] at hb'
  have hsettled : Settled config transit e b' now rest :=
    h.receive htol hpending harrival hafter hbefore (by omega) (by omega) heq
      (h.inv.arrive hpos hts hb')
  exact hsettled.sleep htol hsleep

/-- While nothing is queued, time may pass. -/
theorem Settled.later (h : Settled config transit e b now pending) (hqueue : b.queue.packets = [])
    {now' : ℕ} (hle : now ≤ now') (hfinite : now' < 2 ^ 62)
    (hidle : Short config e → ∀ last ∈ b.lastEmittedTs, ∀ o ∈ b.clockOffsetUs,
      ∃ m < 4, (now' : ℤ) = last + o + 5000 * m) : Settled config transit e b now' pending where
  config_eq := h.config_eq
  master := h.master
  plc := h.plc
  inv := h.inv
  offset := h.offset
  unset := h.unset
  stream := h.stream
  arrived := by simp [hqueue]
  past := by
    rintro last hlast
    obtain ⟨hlo, hhi⟩ := h.past last hlast
    exact ⟨hlo, by omega⟩
  ahead := h.ahead
  finite := hfinite
  fresh := by simp [hqueue]
  spaced := h.spaced
  concealed := h.concealed
  idle := fun hshort _ => hidle hshort
  single := by simp [hqueue]

/-- The front of the queue is played at the end of the sleep. -/
theorem Settled.play (htol : Tolerance config e) (h : Settled config transit e b now pending)
    {front : MediaObject} {rest : List MediaObject} (hqueue : b.queue.packets = front :: rest)
    {o : ℤ} (ho : o ∈ b.clockOffsetUs) {now' : ℕ} (hfinite : now' < 2 ^ 62)
    (hdeadline : (now' : ℤ) = max (now : ℤ) (front.captureTimestampUs + o))
    (hinv : (b.take { emitted := [front] }).Inv) :
    Settled config transit e (b.take { emitted := [front] }) now' pending := by
  have hrest : (b.take { emitted := [front] }).queue.packets = rest := by
    simp [JitterBuffer.take, Queue.drop, hqueue]
  have hlast : (b.take { emitted := [front] }).lastEmittedTs = some front.captureTimestampUs := rfl
  have hout : (b.take { emitted := [front] }).out = b.out ++ [front] := rfl
  have hmem : front ∈ b.queue.packets ++ pending := by simp [hqueue]
  have hts := (h.stream.timestamp front hmem).2
  have harrival := h.stream.arrival front hmem
  have hoffset := h.offset o ho
  have hfresh := h.fresh front rest hqueue
  have hstream := h.stream
  rw [hqueue, List.cons_append] at hstream
  obtain ⟨hfront, hspaced⟩ := List.pairwise_cons.mp hstream.spaced
  obtain ⟨hdelay, -, hframe, hlate⟩ := htol
  refine
    { config_eq := h.config_eq
      master := h.master
      plc := h.plc
      inv := hinv
      offset := h.offset
      unset := fun hunset => by cases ho.symm.trans hunset
      stream := ?stream
      arrived := ?arrived
      past := ?past
      ahead := ?ahead
      finite := hfinite
      fresh := ?fresh
      spaced := ?spaced
      concealed := ?concealed
      idle := ?idle
      single := ?single }
  case stream =>
    rw [hrest]
    exact ⟨hspaced, fun a ha => hstream.timestamp a (List.mem_cons_of_mem _ ha),
      fun a ha => hstream.arrival a (List.mem_cons_of_mem _ ha)⟩
  case arrived =>
    rintro a ha
    rw [hrest] at ha
    have := h.arrived a (by simp [hqueue, ha])
    omega
  case past =>
    rintro last hlast'
    rw [hlast] at hlast'
    cases hlast'
    constructor <;> omega
  case ahead =>
    rintro last hlast'
    rw [hlast] at hlast'
    cases hlast'
    rw [hrest]
    exact hfront
  case fresh =>
    rintro next later hnext
    rw [hrest] at hnext
    have := (hfront next (by simp [hnext])).le
    omega
  case spaced =>
    rw [hout, List.map_append, List.map_singleton, slot_of_lt hts]
    refine each_snoc.mpr ⟨h.spaced, fun m hm => ?_⟩
    have hm := hm.unique h.inv.timeline
    constructor
    · rintro ⟨l, hl⟩
      exact h.concealed l hl m hm.symm front hmem
    · intro hshort
      exact (h.single hshort front rest hqueue).2.2 m hm.symm
  case concealed =>
    rintro l hl
    rw [hout, List.map_append, List.map_singleton, slot_of_lt hts] at hl
    obtain ⟨-, hl⟩ := List.append_inj' hl rfl
    cases hl
  case idle =>
    rintro hshort - last hlast' o' ho'
    rw [hlast] at hlast'
    cases hlast'
    cases ho.symm.trans ho'
    have := (h.single hshort front rest hqueue).2.1 o ho
    exact ⟨0, by omega, by omega⟩
  case single =>
    rintro hshort next later hnext
    rw [hrest, (h.single hshort front rest hqueue).1] at hnext
    cases hnext

/-- A slot is concealed while nothing is queued. -/
theorem Settled.conceal (htol : Tolerance config e) (h : Settled config transit e b now pending)
    (hqueue : b.queue.packets = []) {last now' : ℕ} (hlast : last ∈ b.lastEmittedTs)
    {o : ℤ} (ho : o ∈ b.clockOffsetUs) (hfinite : now' < 2 ^ 62)
    (hdefault : now' = now + 5000) (hwait : ∀ obj ∈ pending, now' ≤ obj.captureTimestampUs + transit)
    (hdue : last + frameUs + o ≤ now') (hearly : now' < last + frameUs + o + b.config.maxLateUs)
    (hb' : b' = { b with lastEmittedTs := some (last + frameUs), out := b.out ++ [plcSentinel] })
    (hinv : b'.Inv) : Settled config transit e b' now' pending := by
  subst hb'
  have hoffset := h.offset o ho
  obtain ⟨hpast, -⟩ := h.past last hlast
  have hconfig := h.config_eq
  obtain ⟨hdelay, -, hframe, hlate⟩ := htol
  have hslots : (b.out ++ [plcSentinel]).map slot = b.out.map slot ++ [.conceal] := by
    simp [slot_of_plc (rfl : IsPlc plcSentinel)]
  refine
    { config_eq := hconfig
      master := h.master
      plc := h.plc
      inv := hinv
      offset := h.offset
      unset := fun hunset => by cases ho.symm.trans hunset
      stream := h.stream
      arrived := by simp [hqueue]
      past := ?past
      ahead := ?ahead
      finite := hfinite
      fresh := by simp [hqueue]
      spaced := ?spaced
      concealed := ?concealed
      idle := ?idle
      single := by simp [hqueue] }
  case past =>
    rintro m hm
    cases hm
    push_cast
    constructor <;> omega
  case ahead =>
    rintro m hm obj hobj
    cases hm
    have hbehind := h.ahead last hlast obj hobj
    simp only [hqueue, List.nil_append] at hobj
    have := hwait obj hobj
    exact hbehind.next (by omega)
  case spaced =>
    rw [hslots]
    refine each_snoc.mpr ⟨h.spaced, ?_⟩
    rw [← hconfig]
    exact (by omega : 0 < b.config.maxLateUs)
  case concealed =>
    rintro - - m hm obj hobj
    cases hm
    simp only [hqueue, List.nil_append] at hobj
    have := hwait obj hobj
    omega
  case idle =>
    rintro hshort - m hm o' ho'
    cases hm
    cases ho.symm.trans ho'
    obtain ⟨m, hm, hnow⟩ := h.idle hshort hqueue last hlast o ho
    unfold frameUs at *
    exact ⟨0, by omega, by push_cast; omega⟩

/-- Nothing that is still under way arrives before a sleep that its front leaves alone ends. -/
theorem Steady.arrive_late (h : Steady config transit e t)
    (hwait : ∀ next ∈ t.pending.head?, t.deadline ≤ arrivalUs transit next) :
    ∀ obj ∈ t.pending, t.deadline ≤ obj.captureTimestampUs + transit := by
  cases hpending : t.pending with
  | nil => simp
  | cons next rest =>
    have hnext := hwait next (by simp [hpending])
    have harrival := h.stream.arrival next (by simp [hpending])
    have hspaced := (List.pairwise_append.mp h.stream.spaced).2.1
    rw [hpending] at hspaced
    unfold arrivalUs at hnext
    rintro obj hobj
    rcases List.mem_cons.mp hobj with rfl | hobj
    · omega
    · have := ((List.pairwise_cons.mp hspaced).1 obj hobj).le
      omega

/-- At the end of a sleep with nothing queued a slot is concealed, or time has passed. -/
theorem Steady.wake_idle (htol : Tolerance config e) (h : Steady config transit e t)
    (hqueue : t.buffer.queue.packets = []) (hfinite : t.deadline < 2 ^ 62)
    (hwait : ∀ obj ∈ t.pending, t.deadline ≤ obj.captureTimestampUs + transit)
    {o : ℤ} (ho : o ∈ t.buffer.clockOffsetUs) (hb' : t.buffer.conceal o t.deadline = some b') :
    Settled config transit e b' t.deadline t.pending := by
  have hdefault := h.default hqueue
  have hrange := h.offset o ho
  have hconfig := h.config_eq
  have hnow := h.finite
  obtain ⟨hdelay, hdelay', hframe, -⟩ := id htol
  have hlo : ∀ last ∈ t.buffer.lastEmittedTs, 0 ≤ last + o := by
    rintro last hlast
    have := h.past last hlast
    omega
  have hhi : ∀ last ∈ t.buffer.lastEmittedTs, last + frameUs + o < 2 ^ 63 := by
    rintro last hlast
    have := h.past last hlast
    unfold frameUs at *
    omega
  obtain ⟨rfl, hnot⟩ | ⟨last, hlast, hdue, hearly, heq⟩ := conceal_cases hb' hlo hhi
  · refine h.later hqueue (by omega) hfinite fun hshort last hlast o' ho' => ?_
    cases ho.symm.trans ho'
    obtain ⟨m, hm, hnow⟩ := h.idle hshort hqueue last hlast o ho
    have hnot := hnot last hlast
    have hlate := hshort.2
    rw [hconfig] at hnot
    unfold frameUs at hnot
    exact ⟨m + 1, by omega, by omega⟩
  · refine h.conceal htol hqueue hlast ho hfinite hdefault hwait hdue hearly heq ?_
    rw [heq]
    exact h.inv.concealSlot hlast (by simp [hqueue])

/-- At the end of a sleep with a packet queued just the front is released. -/
theorem Steady.released (htol : Tolerance config e) (h : Steady config transit e t)
    {front : MediaObject} {rest : List MediaObject}
    (hqueue : t.buffer.queue.packets = front :: rest) (hfinite : t.deadline < 2 ^ 62)
    {o : ℤ} (ho : o ∈ t.buffer.clockOffsetUs) {r : Released}
    (hr : release t.buffer.config.maxLateUs o t.deadline (front :: rest) = some r) :
    r = { emitted := [front] } := by
  have hdeadline := h.front front rest hqueue o ho
  have hfresh := h.fresh front rest hqueue
  have hwindow := h.window hqueue
  have hrange := h.offset o ho
  obtain ⟨hdelay, -, hframe, hlate⟩ := id htol
  obtain ⟨hdue, -⟩ := h.due htol (by simp [hqueue] : front ∈ t.buffer.queue.packets) ho
  refine release_front hr ⟨hdue, by omega⟩ (by rw [h.config_eq]; omega) hfinite fun next hnext => ?_
  have hmem : next ∈ rest := List.mem_of_mem_head? hnext
  have hbehind := (h.front_behind hqueue hmem).le
  exact ⟨by omega, (h.due htol (by simp [hqueue, hmem]) ho).2⟩

theorem Steady.wake (htol : Tolerance config e) (h : Steady config transit e t)
    (hregular : Regular config transit e t .wake) (hs : step transit t .wake = some t') :
    Steady config transit e t' := by
  obtain ⟨hwait, b', hb', hsleep⟩ := step_wake hs
  refine Settled.sleep htol ?_ hsleep
  cases hoffset : t.buffer.clockOffsetUs with
  | none =>
    obtain ⟨hqueue, hlast⟩ := h.unset hoffset
    have hdefault := h.default hqueue
    simp only [JitterBuffer.wake, hoffset, Option.some.injEq] at hb'
    subst hb'
    exact h.later hqueue (by omega) hregular (by simp [hlast])
  | some o =>
    have ho : o ∈ t.buffer.clockOffsetUs := hoffset
    simp only [JitterBuffer.wake, hoffset] at hb'
    obtain ⟨r, hr, hb'⟩ := Option.bind_eq_some_iff.mp hb'
    have hinv := h.inv.take (by rwa [Arithmetic.checked_release])
    cases hqueue : t.buffer.queue.packets with
    | nil =>
      rw [hqueue] at hr
      obtain rfl := Option.some.inj hr
      rw [take_nothing, h.plc] at hb'
      exact h.wake_idle htol hqueue hregular (h.arrive_late hwait) ho hb'
    | cons front rest =>
      rw [hqueue] at hr
      obtain rfl := h.released htol hqueue hregular ho hr
      simp only [List.isEmpty_cons, Bool.false_and, Bool.false_eq_true, if_false,
        Option.some.injEq] at hb'
      subst hb'
      exact h.play htol hqueue ho hregular (h.front front rest hqueue o ho) hinv

theorem Steady.step (htol : Tolerance config e) (h : Steady config transit e t) {a : Action}
    (hregular : Regular config transit e t a) (hs : step transit t a = some t') :
    Steady config transit e t' := by
  cases a with
  | arrive smoothed => exact h.arrive htol hregular hs
  | wake => exact h.wake htol hregular hs

section Loss

variable {first next : MediaObject} {between : List MediaObject} {k : ℕ}

/-- Nothing but sentinels is emitted in place of lost frames. -/
theorem plc_of_lost (hinv : b.Inv) (hloss : b.Loss first between next k) :
    ∀ obj ∈ between, IsPlc obj := by
  rintro obj hobj
  by_contra hplc
  obtain ⟨before, after, hout⟩ := hloss.played
  have hsorted := List.pairwise_map.mp hinv.timeline.sorted
  rw [hout] at hsorted
  obtain ⟨hfirst, hrest⟩ := List.pairwise_cons.mp (List.pairwise_append.mp hsorted).2.1
  have hlo := hfirst obj (List.mem_append_left _ hobj) _ _ (slot_of_not_plc hloss.frames.1)
    (slot_of_not_plc hplc)
  have hhi := (List.pairwise_append.mp hrest).2.2 obj hobj next List.mem_cons_self _ _
    (slot_of_not_plc hplc) (slot_of_not_plc hloss.frames.2)
  have hmem : obj ∈ b.out := by simp [hout, hobj]
  exact hloss.lost obj ((hinv.emitted obj hmem).resolve_left hplc) ⟨hlo, hhi⟩

/-- What the distances behind the position reached say about a gap. -/
theorem gap_of_spaced (hinv : b.Inv) (hspaced : Each (Spaced config e) (b.out.map slot))
    (hloss : b.Loss first between next k) :
    (between ≠ [] → first.captureTimestampUs + frameUs * between.length + config.targetDelayUs ≤
      next.captureTimestampUs + e ∧ 0 < config.maxLateUs) ∧
      (Short config e →
        next.captureTimestampUs = first.captureTimestampUs + frameUs * between.length + frameUs) := by
  have hplcs := plc_of_lost hinv hloss
  obtain ⟨before, after, hout⟩ := hloss.played
  have hslots : between.map slot = List.replicate between.length .conceal := by
    apply List.eq_replicate_iff.mpr
    constructor
    · exact List.length_map _
    · rintro x hx
      obtain ⟨plc, hplc, rfl⟩ := List.mem_map.mp hx
      exact slot_of_plc (hplcs plc hplc)
  have htimeline := hinv.timeline
  rw [hout, List.map_append, List.map_cons, List.map_append, List.map_cons, hslots,
    slot_of_not_plc hloss.frames.1, slot_of_not_plc hloss.frames.2, ← List.cons_append,
    ← List.append_assoc] at htimeline hspaced
  obtain ⟨last, hlast⟩ := htimeline.of_append
  cases hlast.last_of_concealed
  obtain ⟨hconcealed, hshort⟩ := hspaced _ _ _ rfl _ hlast
  refine ⟨fun hne => ?_, hshort⟩
  obtain ⟨s, hs⟩ := Nat.exists_eq_succ_of_ne_zero fun hzero => hne (List.eq_nil_of_length_eq_zero hzero)
  rw [hs, List.replicate_succ', ← List.cons_append, ← List.append_assoc] at hconcealed hspaced
  constructor
  · rw [hs]
    exact hconcealed ⟨_, rfl⟩
  · rw [List.append_assoc] at hspaced
    exact hspaced _ _ _ rfl

/--
Lost frames between two that are played are concealed one for one if and only if the target delay
is below the distance of frames and late slots are tolerated at all.
-/
theorem concealed_iff (htol : Tolerance config e) (hstream : Stream transit frames)
    (hnow : now < 2 ^ 62) {as : List Action}
    (h : Run (step transit) (Regular config transit e) (start config now frames) as t)
    (hdelay : config.targetDelayUs + e < frameUs ∨ frameUs + e < config.targetDelayUs)
    (hloss : t.buffer.Loss first between next k) :
    between.countP (fun obj => IsPlc obj) = k ↔ Short config e := by
  have hsteady := h.invariant (P := Steady config transit e)
    (fun _ _ _ hn ha hs => hn.step htol ha hs) (.start hstream hnow)
  obtain ⟨hgap, hshort⟩ := gap_of_spaced hsteady.inv hsteady.spaced hloss
  have hcount : between.countP (fun obj => IsPlc obj) = between.length :=
    List.countP_eq_length.mpr fun obj hobj => decide_eq_true (plc_of_lost hsteady.inv hloss obj hobj)
  have hdistance := hloss.distance
  have hpos := hloss.pos
  rw [hcount]
  constructor
  · rintro rfl
    obtain ⟨hle, hlate⟩ := hgap (List.ne_nil_of_length_pos hpos)
    refine ⟨?_, hlate⟩
    rw [Nat.mul_succ] at hdistance
    omega
  · intro h
    have heq := hshort h
    rw [hdistance, Nat.mul_succ, ← Nat.add_assoc, Nat.add_right_cancel_iff,
      Nat.add_left_cancel_iff] at heq
    exact (Nat.eq_of_mul_eq_mul_left (by decide) heq).symm

instance (t : Timed) (a : Action) : Decidable (Regular config transit e t a) :=
  match a with
  | .arrive smoothed => inferInstanceAs (Decidable (transit + config.targetDelayUs - e ≤ smoothed ∧
      smoothed ≤ transit + config.targetDelayUs + e ∧ t.deadline < 2 ^ 62))
  | .wake => inferInstanceAs (Decidable (t.deadline < 2 ^ 62))

/-- The second of three frames is lost. -/
def oneLost : List MediaObject := [samplePacket 1000000, samplePacket 1040000]

theorem stream_oneLost : Stream 0 oneLost where
  spaced := List.pairwise_cons.mpr ⟨by simpa [samplePacket] using ⟨1, rfl⟩, List.pairwise_singleton _ _⟩
  timestamp := by decide
  arrival := by decide

/-- The loss of the second of three frames, as far as it shows in the buffer. -/
theorem loss_oneLost {plcs : List MediaObject} (harrived : b.arrived = oneLost)
    (hout : b.out = samplePacket 1000000 :: (plcs ++ [samplePacket 1040000])) :
    b.Loss (samplePacket 1000000) plcs (samplePacket 1040000) 1 where
  played := ⟨[], [], hout⟩
  frames := by decide
  distance := rfl
  lost := by rw [harrived]; decide
  pos := Nat.one_pos

/-- A delay of half a frame, with timeouts of 5 ms until the lost slot is due. -/
theorem concealed_halfFrame : ∃ t,
    Run (step 0) (Regular ⟨10000, 40000⟩ 0 1) (start ⟨10000, 40000⟩ 1000000 oneLost)
        [.arrive 10000, .wake, .wake, .wake, .wake, .wake, .wake, .arrive 10000, .wake] t ∧
      t.buffer.out = [samplePacket 1000000, plcSentinel, samplePacket 1040000] ∧
      ([plcSentinel].countP (fun obj => IsPlc obj) = 1 ↔ Short ⟨10000, 40000⟩ 1) := by
  obtain ⟨t, ht, hsummary⟩ := Option.map_eq_some_iff.mp
    (by decide +kernel : (exec (guarded (step 0) (Regular ⟨10000, 40000⟩ 0 1))
      (start ⟨10000, 40000⟩ 1000000 oneLost) [.arrive 10000, .wake, .wake, .wake, .wake, .wake, .wake,
        .arrive 10000, .wake]).map (fun t => (t.buffer.arrived, t.buffer.out)) =
      some (oneLost, [samplePacket 1000000, plcSentinel, samplePacket 1040000]))
  obtain ⟨harrived, hout⟩ := Prod.mk.inj hsummary
  have hrun := run_of_guarded ht
  exact ⟨t, hrun, hout, concealed_iff ⟨by decide, by decide, by decide, by decide⟩ stream_oneLost
    (by decide) hrun (.inl (by decide)) (loss_oneLost harrived hout)⟩

/-- With the delay of the audio buffers, the frame behind the gap is queued in time, and the buffer
sleeps past the lost slot. -/
theorem not_concealed : ¬ ∀ as t first between next k,
    Run (step 0) (Regular audioConfig 0 1) (start audioConfig 1000000 oneLost) as t →
      t.buffer.Loss first between next k → between.countP (fun obj => IsPlc obj) = k := by
  intro hall
  obtain ⟨t, ht, hsummary⟩ := Option.map_eq_some_iff.mp
    (by decide +kernel : (exec (guarded (step 0) (Regular audioConfig 0 1))
      (start audioConfig 1000000 oneLost) [.arrive 60000, .arrive 60000, .wake, .wake]).map
        (fun t => (t.buffer.arrived, t.buffer.out)) = some (oneLost, oneLost))
  obtain ⟨harrived, hout⟩ := Prod.mk.inj hsummary
  have hloss : t.buffer.Loss (samplePacket 1000000) [] (samplePacket 1040000) 1 :=
    loss_oneLost harrived hout
  exact absurd (hall _ t _ _ _ _ (run_of_guarded ht) hloss) (by decide)

end Loss

end Timed

end Meshconf.Jitter
