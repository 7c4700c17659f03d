import Meshconf.Video.EncodeLoop

/-! # Compression sessions

Every session has a size and a frame rate. The loop hands it the camera's buffers where
they have that size, and otherwise scaled copies from a pool of its own, and numbers its
frames. A new preset brings a new session, a new pool and new numbers.
-/

namespace Meshconf.Video

open Transition

structure CompressionSession where
  id : ℕ
  width : ℕ
  height : ℕ
  fps : ℕ
  deriving DecidableEq, Repr

/-- A call that encodes a buffer of the given size. -/
structure EncodeFrame where
  session : CompressionSession
  buffer : ℕ × ℕ
  pts : ℕ
  timescale : ℕ
  deriving DecidableEq, Repr

/-- A copy of the planes `y` and `cbcr`, of these lengths, into a buffer of the pool. -/
structure CreateFilled where
  pool : ℕ × ℕ
  y : ℕ
  cbcr : ℕ
  deriving DecidableEq, Repr

/-- The bytes that the copy reads, row by row and without a check of the lengths, are there. -/
def CreateFilled.InBounds (f : CreateFilled) : Prop :=
  (∀ row < f.pool.2, row * f.pool.1 + f.pool.1 ≤ f.y) ∧
    ∀ row < f.pool.2 / 2, row * f.pool.1 + f.pool.1 ≤ f.cbcr

/-- The encode loop with its session and the buffers for scaling. -/
structure Encoding where
  loop : EncodeLoop
  session : CompressionSession
  /-- Lengths of the scaled planes. -/
  resizeY : ℕ := 0
  resizeCbcr : ℕ := 0
  resizePool : Option (ℕ × ℕ) := none
  pixelBuffer : ℕ × ℕ := (0, 0)
  filled : List CreateFilled := []
  calls : List EncodeFrame := []
  deriving DecidableEq, Repr

namespace Encoding

open EncodeLoop

def start (config : Option Bandwidth.EncoderConfig) : Encoding where
  loop := .start config
  session :=
    ⟨0, (EncodeLoop.start config).encWidth, (EncodeLoop.start config).encHeight,
      (EncodeLoop.start config).encFps⟩

/-- Whether the top of the iteration gives up the session. -/
def recreates (s : EncodeLoop) : Bool := !s.cancelled && s.config.any s.needsSession

/-- The size of the pool for scaled buffers, which is made when it is needed first. -/
def pool (e : Encoding) : ℕ × ℕ := e.resizePool.getD (e.loop.encWidth, e.loop.encHeight)

def scalePlanes (e : Encoding) : Encoding :=
  { e with
    resizeY := e.loop.encWidth * e.loop.encHeight
    resizeCbcr := e.loop.encWidth * (e.loop.encHeight / 2) }

/-- Get the pixel buffer; `pooled` tells whether scaling failed with the pool or before it. -/
def prepare (e : Encoding) (frame : Frame) (outcome : Resize) (pooled : Bool) : Encoding :=
  if frame.width = e.loop.encWidth ∧ frame.height = e.loop.encHeight then
    { e with pixelBuffer := (frame.width, frame.height) }
  else
    let e := e.scalePlanes
    match outcome with
    | .done =>
      { e with
        resizePool := some e.pool
        filled := e.filled ++ [⟨e.pool, e.resizeY, e.resizeCbcr⟩]
        pixelBuffer := e.pool }
    | .failed => if pooled then { e with resizePool := some e.pool } else e
    | .noPool => e

/-- What a step of the loop does to the session and the buffers; `loop` is the loop behind it. -/
def follow (e : Encoding) (loop : EncodeLoop) (pooled : Bool) : EncodeLoop.Action → Encoding
  | .configure created =>
    if recreates e.loop then
      { e with
        resizePool := none
        session :=
          if created then ⟨e.session.id + 1, loop.encWidth, loop.encHeight, loop.encFps⟩
          else e.session }
    else e
  | .prepare outcome =>
    match e.loop.phase with
    | .captured frame => e.prepare frame outcome pooled
    | _ => e
  | .encode _ =>
    { e with calls :=
      e.calls ++ [⟨e.session, e.pixelBuffer, e.loop.frameCount, e.loop.encFps⟩] }
  | _ => e

def step (e : Encoding) (a : EncodeLoop.Action × Bool) : Option Encoding :=
  (e.loop.step a.1).map fun loop => { e.follow loop a.2 a.1 with loop }

/-! ## Sizes and numbers -/

/-- The frame at hand has been counted and not been encoded. -/
def fresh (s : EncodeLoop) : Prop :=
  match s.phase with
  | .captured _ | .prepared _ | .swapped _ _ => True
  | _ => False

/-- The frame at hand has its buffer. -/
def buffered (s : EncodeLoop) : Prop :=
  match s.phase with
  | .prepared _ | .swapped _ _ => True
  | _ => False

/-- The call is for a buffer of the session's size, in the session's unit of time. -/
def Fits (c : EncodeFrame) : Prop :=
  c.buffer = (c.session.width, c.session.height) ∧ c.timescale = c.session.fps

/-- The call comes behind another one: of a session before it, or of its own. -/
def Before (c c' : EncodeFrame) : Prop :=
  c.session.id < c'.session.id ∨ (c.session = c'.session ∧ c.pts < c'.pts)

/-- The session is for frames of the size and rate of the loop. -/
def Current (e : Encoding) : Prop :=
  e.session.width = e.loop.encWidth ∧ e.session.height = e.loop.encHeight ∧
    e.session.fps = e.loop.encFps

/-- A call of the session at hand has a number that has been used. -/
structure Numbered (s : EncodeLoop) (session : CompressionSession) (c : EncodeFrame) : Prop where
  session : c.session = session
  pts : c.pts ≤ s.frameCount
  fresh : fresh s → c.pts < s.frameCount

structure Inv (e : Encoding) : Prop where
  current : e.Current
  pool : ∀ size ∈ e.resizePool, size = (e.loop.encWidth, e.loop.encHeight)
  buffer : buffered e.loop → e.pixelBuffer = (e.loop.encWidth, e.loop.encHeight)
  fits : ∀ c ∈ e.calls, Fits c
  numbered : ∀ c ∈ e.calls, c.session.id < e.session.id ∨ Numbered e.loop e.session c
  sorted : e.calls.Pairwise Before
  filled : ∀ f ∈ e.filled, f.InBounds

theorem Inv.init (config : Option Bandwidth.EncoderConfig) : (start config).Inv where
  current := ⟨rfl, rfl, rfl⟩
  pool := by simp [start]
  buffer h := h.elim
  fits := by simp [start]
  numbered := by simp [start]
  sorted := .nil
  filled := by simp [start]

variable {e e' : Encoding} {loop : EncodeLoop}

/-- The fields of the loop that sessions depend on. -/
structure SameFormat (s s' : EncodeLoop) : Prop where
  width : s'.encWidth = s.encWidth
  height : s'.encHeight = s.encHeight
  fps : s'.encFps = s.encFps
  count : s'.frameCount = s.frameCount

theorem SameFormat.refl (s : EncodeLoop) : SameFormat s s := ⟨rfl, rfl, rfl, rfl⟩

/-- A step that changes neither the format nor the buffers. -/
theorem Inv.keep (h : e.Inv) (hsame : SameFormat e.loop loop) (hfresh : fresh loop → fresh e.loop)
    (hbuffered : buffered loop → buffered e.loop) : Inv { e with loop } where
  current := by
    rw [Current, hsame.width, hsame.height, hsame.fps]
    exact h.current
  pool := by
    rw [hsame.width, hsame.height]
    exact h.pool
  buffer hb := by
    rw [hsame.width, hsame.height]
    exact h.buffer (hbuffered hb)
  fits := h.fits
  numbered c hc := (h.numbered c hc).imp_right fun hn =>
    ⟨hn.session, hsame.count ▸ hn.pts, fun hf => hsame.count ▸ hn.fresh (hfresh hf)⟩
  sorted := h.sorted
  filled := h.filled

theorem sameFormat_configure {s : EncodeLoop} {created : Bool}
    (h : ¬ (recreates s ∧ created)) : SameFormat s (s.configure created) := by
  cases hcancelled : s.cancelled with
  | true =>
    simp only [EncodeLoop.configure, hcancelled, if_true]
    exact ⟨rfl, rfl, rfl, rfl⟩
  | false =>
    cases hconfig : s.config with
    | none =>
      simp only [EncodeLoop.configure, hcancelled, hconfig]
      exact ⟨rfl, rfl, rfl, rfl⟩
    | some cfg =>
      have hneeds : s.needsSession cfg → created = false := by
        simpa [recreates, hcancelled, hconfig] using h
      simp only [EncodeLoop.configure, hcancelled, hconfig, Bool.false_eq_true, if_false]
      split_ifs with hfailed hn
      · exact ⟨rfl, rfl, rfl, rfl⟩
      · have hn : s.needsSession cfg = true := hn
        exact absurd (Bool.and_eq_true_iff.mpr ⟨hn, by simp [hneeds hn]⟩) hfailed
      · exact ⟨rfl, rfl, rfl, rfl⟩

theorem phase_configure (s : EncodeLoop) (created : Bool) :
    (s.configure created).phase = .stopped ∨ (s.configure created).phase = .receiving := by
  unfold EncodeLoop.configure
  dsimp only
  split_ifs
  · exact .inl rfl
  · split
    · exact .inr rfl
    · split_ifs
      · exact .inl rfl
      · exact .inr rfl
      · exact .inr rfl

theorem not_fresh_configure (s : EncodeLoop) (created : Bool) :
    ¬ fresh (s.configure created) ∧ ¬ buffered (s.configure created) := by
  unfold fresh buffered
  rcases phase_configure s created with hphase | hphase <;> simp [hphase]

/-- A new session begins: nothing is known of its numbers yet. -/
theorem Inv.recreate (h : e.Inv) (hbuffered : ¬ buffered loop) :
    Inv { e with
      loop
      resizePool := none
      session := ⟨e.session.id + 1, loop.encWidth, loop.encHeight, loop.encFps⟩ } where
  current := ⟨rfl, rfl, rfl⟩
  pool := by simp
  buffer hb := absurd hb hbuffered
  fits := h.fits
  numbered c hc := by
    apply Or.inl
    rcases h.numbered c hc with hold | hnumbered
    · exact Nat.lt_succ_of_lt hold
    · rw [hnumbered.session]
      exact Nat.lt_succ_self _
  sorted := h.sorted
  filled := h.filled

theorem Inv.configure (h : e.Inv) (created : Bool) :
    Inv { e.follow (e.loop.configure created) false (.configure created) with
      loop := e.loop.configure created } := by
  obtain ⟨hfresh, hbuffered⟩ := not_fresh_configure e.loop created
  by_cases hrecreated : recreates e.loop ∧ created
  · obtain ⟨hneeds, rfl⟩ := hrecreated
    simp only [follow, hneeds, if_true]
    exact h.recreate hbuffered
  · have hkept := h.keep (sameFormat_configure hrecreated) (fun hf => absurd hf hfresh)
      (fun hb => absurd hb hbuffered)
    simp only [follow]
    split_ifs with hneeds hcreated
    · exact absurd ⟨hneeds, hcreated⟩ hrecreated
    · exact ⟨hkept.current, by simp, hkept.buffer, hkept.fits, hkept.numbered, hkept.sorted,
        hkept.filled⟩
    · exact hkept

/-! ## Buffers -/

theorem Inv.pool_eq (h : e.Inv) : e.pool = (e.loop.encWidth, e.loop.encHeight) := by
  unfold Encoding.pool
  cases hpool : e.resizePool with
  | none => rfl
  | some size => exact h.pool size hpool

theorem inBounds_of_exact {f : CreateFilled} (hy : f.y = f.pool.1 * f.pool.2)
    (hcbcr : f.cbcr = f.pool.1 * (f.pool.2 / 2)) : f.InBounds := by
  have hrow : ∀ n, ∀ row < n, row * f.pool.1 + f.pool.1 ≤ f.pool.1 * n := by
    intro n row hlt
    calc row * f.pool.1 + f.pool.1 = f.pool.1 * (row + 1) := by ring
      _ ≤ f.pool.1 * n := Nat.mul_le_mul_left _ hlt
  exact ⟨hy ▸ hrow _, hcbcr ▸ hrow _⟩

theorem sameFormat_prepare (s : EncodeLoop) (frame : Frame) (outcome : Resize) :
    SameFormat s (s.prepare frame outcome) := by
  unfold EncodeLoop.prepare
  split_ifs
  · exact ⟨rfl, rfl, rfl, rfl⟩
  · cases outcome <;> exact ⟨rfl, rfl, rfl, rfl⟩

theorem phase_prepare {s : EncodeLoop} {frame : Frame} {outcome : Resize}
    (h : buffered (s.prepare frame outcome)) :
    (frame.width = s.encWidth ∧ frame.height = s.encHeight) ∨ outcome = .done := by
  unfold EncodeLoop.prepare at h
  split_ifs at h with hsize
  · exact .inl hsize
  · cases outcome with
    | done => exact .inr rfl
    | failed | noPool => exact h.elim

/-- The pool has been made for the size of the loop, so the scaled planes fill its buffers. -/
theorem Inv.prepare (h : e.Inv) {frame : Frame} (hphase : e.loop.phase = .captured frame)
    (outcome : Resize) (pooled : Bool) :
    Inv { e.prepare frame outcome pooled with loop := e.loop.prepare frame outcome } := by
  have hsame := sameFormat_prepare e.loop frame outcome
  have hfresh : fresh e.loop := by simp [fresh, hphase]
  have hpool := h.pool_eq
  have hnumbered : ∀ c ∈ e.calls, c.session.id < e.session.id ∨
      Numbered (e.loop.prepare frame outcome) e.session c := fun c hc =>
    (h.numbered c hc).imp_right fun hn =>
      ⟨hn.session, hsame.count ▸ hn.pts, fun _ => hsame.count ▸ hn.fresh hfresh⟩
  have hcurrent : e.session.width = (e.loop.prepare frame outcome).encWidth ∧
      e.session.height = (e.loop.prepare frame outcome).encHeight ∧
      e.session.fps = (e.loop.prepare frame outcome).encFps := by
    rw [hsame.width, hsame.height, hsame.fps]
    exact h.current
  have hold : ∀ size ∈ e.resizePool, size =
      ((e.loop.prepare frame outcome).encWidth, (e.loop.prepare frame outcome).encHeight) := by
    rw [hsame.width, hsame.height]
    exact h.pool
  have hnew : ∀ size ∈ some e.pool, size =
      ((e.loop.prepare frame outcome).encWidth, (e.loop.prepare frame outcome).encHeight) := by
    rintro size ⟨⟩
    rw [hsame.width, hsame.height]
    exact hpool
  by_cases hsize : frame.width = e.loop.encWidth ∧ frame.height = e.loop.encHeight
  · simp only [Encoding.prepare, if_pos hsize]
    refine ⟨hcurrent, hold, fun _ => ?_, h.fits, hnumbered, h.sorted, h.filled⟩
    rw [hsame.width, hsame.height, ← hsize.1, ← hsize.2]
  · simp only [Encoding.prepare, if_neg hsize]
    cases outcome with
    | done =>
      refine ⟨hcurrent, hnew, fun _ => hnew _ rfl, h.fits, hnumbered, h.sorted, ?_⟩
      intro f hf
      rcases List.mem_append.mp hf with hf | hf
      · exact h.filled f hf
      · obtain rfl := List.mem_singleton.mp hf
        apply inBounds_of_exact
        · show e.loop.encWidth * e.loop.encHeight = e.pool.1 * e.pool.2
          rw [hpool]
        · show e.loop.encWidth * (e.loop.encHeight / 2) = e.pool.1 * (e.pool.2 / 2)
          rw [hpool]
    | failed =>
      have hbuffer : ∀ buffer : ℕ × ℕ, buffered (e.loop.prepare frame .failed) → buffer =
          ((e.loop.prepare frame .failed).encWidth, (e.loop.prepare frame .failed).encHeight) :=
        fun _ hb => absurd (phase_prepare hb) (by simp [hsize])
      cases pooled with
      | true => exact ⟨hcurrent, hnew, hbuffer _, h.fits, hnumbered, h.sorted, h.filled⟩
      | false => exact ⟨hcurrent, hold, hbuffer _, h.fits, hnumbered, h.sorted, h.filled⟩
    | noPool =>
      exact ⟨hcurrent, hold, fun hb => absurd (phase_prepare hb) (by simp [hsize]), h.fits,
        hnumbered, h.sorted, h.filled⟩

/-! ## Calls -/

/-- The session is called with a buffer of its size, and a number that it has not seen. -/
theorem Inv.encode (h : e.Inv) {frame : Frame} {forced : Bool}
    (hphase : e.loop.phase = .swapped frame forced) (hsame : SameFormat e.loop loop)
    (hfresh : ¬ fresh loop) (hbuffered : ¬ buffered loop) :
    Inv { e with
      loop
      calls := e.calls ++ [⟨e.session, e.pixelBuffer, e.loop.frameCount, e.loop.encFps⟩] } := by
  have hnow : fresh e.loop := by simp [fresh, hphase]
  have hbuffer : e.pixelBuffer = (e.loop.encWidth, e.loop.encHeight) :=
    h.buffer (by simp [buffered, hphase])
  have hkept := h.keep hsame (fun hf => absurd hf hfresh) (fun hb => absurd hb hbuffered)
  obtain ⟨hwidth, hheight, hfps⟩ := h.current
  refine ⟨hkept.current, hkept.pool, hkept.buffer, ?_, ?_, ?_, h.filled⟩
  · intro c hc
    rcases List.mem_append.mp hc with hc | hc
    · exact h.fits c hc
    · obtain rfl := List.mem_singleton.mp hc
      exact ⟨by simp [hbuffer, hwidth, hheight], hfps.symm⟩
  · intro c hc
    rcases List.mem_append.mp hc with hc | hc
    · exact hkept.numbered c hc
    · obtain rfl := List.mem_singleton.mp hc
      exact .inr ⟨rfl, hsame.count.ge, fun hf => absurd hf hfresh⟩
  · refine List.pairwise_append.mpr ⟨h.sorted, List.pairwise_singleton _ _, ?_⟩
    intro c hc c' hc'
    obtain rfl := List.mem_singleton.mp hc'
    exact (h.numbered c hc).imp_right fun hn => ⟨hn.session, hn.fresh hnow⟩

/-- A frame is counted. -/
theorem Inv.receive (h : e.Inv) (frame : Frame) :
    Inv { e with loop :=
      { e.loop with frameCount := e.loop.frameCount + 1, phase := .captured frame } } where
  current := h.current
  pool := h.pool
  buffer hb := hb.elim
  fits := h.fits
  numbered c hc := (h.numbered c hc).imp_right fun hn =>
    ⟨hn.session, Nat.le_succ_of_le hn.pts, fun _ => Nat.lt_succ_of_le hn.pts⟩
  sorted := h.sorted
  filled := h.filled

theorem collect_spec (s : EncodeLoop) (frame : Frame) :
    SameFormat s (s.collect frame) ∧ ¬ fresh (s.collect frame) ∧ ¬ buffered (s.collect frame) := by
  unfold EncodeLoop.collect fresh buffered
  split
  · exact ⟨⟨rfl, rfl, rfl, rfl⟩, id, id⟩
  · dsimp only
    split_ifs <;> exact ⟨⟨rfl, rfl, rfl, rfl⟩, id, id⟩

/-! ## Runs -/

theorem Inv.step (h : e.Inv) {a : EncodeLoop.Action × Bool} (hs : e.step a = some e') :
    e'.Inv := by
  obtain ⟨loop, hloop, rfl⟩ := Option.map_eq_some_iff.mp hs
  obtain ⟨a, pooled⟩ := a
  cases a with
  | configure created =>
    simp only [EncodeLoop.step] at hloop
    split at hloop <;> cases hloop
    exact h.configure created
  | prepare outcome =>
    simp only [EncodeLoop.step] at hloop
    split at hloop <;> cases hloop
    rename_i frame hphase
    simp only [follow, hphase]
    exact h.prepare hphase outcome pooled
  | encode status =>
    simp only [EncodeLoop.step] at hloop
    split at hloop <;> try cases hloop
    rename_i frame forced hphase
    split_ifs at hloop <;> obtain rfl := Option.some.inj hloop
    · exact h.encode hphase ⟨rfl, rfl, rfl, rfl⟩ id id
    · exact h.encode hphase ⟨rfl, rfl, rfl, rfl⟩ id id
  | receive frame =>
    simp only [EncodeLoop.step] at hloop
    split at hloop <;> cases hloop
    · exact h.receive _
    · exact h.keep ⟨rfl, rfl, rfl, rfl⟩ False.elim False.elim
  | swap =>
    simp only [EncodeLoop.step] at hloop
    split at hloop <;> cases hloop
    rename_i frame hphase
    exact h.keep ⟨rfl, rfl, rfl, rfl⟩ (fun _ => by simp [fresh, hphase])
      (fun _ => by simp [buffered, hphase])
  | complete status =>
    simp only [EncodeLoop.step] at hloop
    split at hloop <;> try cases hloop
    split_ifs at hloop
    obtain rfl := Option.some.inj hloop
    exact h.keep ⟨rfl, rfl, rfl, rfl⟩ False.elim False.elim
  | collect =>
    simp only [EncodeLoop.step] at hloop
    split at hloop <;> cases hloop
    rename_i frame forced hphase
    obtain ⟨hsame, hfresh, hbuffered⟩ := collect_spec e.loop frame
    exact h.keep hsame (fun hf => absurd hf hfresh) (fun hb => absurd hb hbuffered)
  | callback status sample =>
    simp only [EncodeLoop.step] at hloop
    split at hloop <;> cases hloop <;> exact h.keep ⟨rfl, rfl, rfl, rfl⟩ id id
  | addPeer | startSending | publish | cancel | take | closeReceiver =>
    obtain rfl := Option.some.inj hloop
    exact h.keep ⟨rfl, rfl, rfl, rfl⟩ id id

/--
In every run, a compression session is only called with buffers of its own size, its frames have
increasing numbers in its own unit of time, no session is called behind a later one, and the copies
into buffers of the pool stay within the scaled planes.
-/
theorem sessions_consistent {config : Option Bandwidth.EncoderConfig}
    (h : Reachable step (start config) e) :
    (∀ c ∈ e.calls, Fits c) ∧ e.calls.Pairwise Before ∧ ∀ f ∈ e.filled, f.InBounds := by
  have hinv := h.invariant (P := Inv) (fun _ _ _ hi hs => hi.step hs) (.init config)
  exact ⟨hinv.fits, hinv.sorted, hinv.filled⟩

/-- A frame of the camera's own size is encoded, and a smaller preset brings a new session. -/
def presetAmidFrames : List (EncodeLoop.Action × Bool) :=
  [(.configure true, false), (.receive (some ⟨640, 480, 1⟩), false), (.prepare .done, false),
    (.swap, false), (.encode (-1), false), (.publish ⟨250000, 480, 360, 15, true⟩, false),
    (.configure true, false), (.receive (some ⟨640, 480, 2⟩), false), (.prepare .done, false),
    (.swap, false), (.encode 0, false)]

theorem sessions_consistent_presetAmidFrames : ∃ e : Encoding,
    e.calls.map (fun c => (c.session.id, c.buffer, c.pts)) =
      [(0, (640, 480), 1), (1, (480, 360), 1)] ∧
    e.filled = [⟨(480, 360), 172800, 86400⟩] ∧
    (∀ c ∈ e.calls, Fits c) ∧ e.calls.Pairwise Before ∧ ∀ f ∈ e.filled, f.InBounds := by
  obtain ⟨e, he, hsummary⟩ := Option.map_eq_some_iff.mp
    (by decide +kernel : (exec step (start (some .new)) presetAmidFrames).map
      (fun e => (e.calls.map (fun c => (c.session.id, c.buffer, c.pts)), e.filled)) =
        some ([(0, (640, 480), 1), (1, (480, 360), 1)], [⟨(480, 360), 172800, 86400⟩]))
  obtain ⟨hcalls, hfilled⟩ := Prod.mk.inj hsummary
  exact ⟨e, hcalls, hfilled, sessions_consistent ⟨_, run_of_exec he⟩⟩

end Encoding

end Meshconf.Video
