import Meshconf.Bandwidth.Stores
import Meshconf.Video.EncodeLoop

/-! # The settings of the encoder

The estimator stores its targets one by one while the encode loop loads them one by one.
A full check of the configuration that no store interrupts leaves the encoder with the
published targets, whatever was stored and loaded before.
-/

namespace Meshconf.Video

open Bandwidth Publication Transition

namespace Tuning

/-- The next load or swap of the encode loop, with what it has loaded for a new session. -/
inductive Phase
  -- The first session.
  | initWidth
  | initHeight
  | initFps
  | initBitrate
  | create
  -- The check of an iteration.
  | top
  | readWidth
  | readHeight (w : ℕ)
  | readFps (w h : ℕ)
  | readBitrate (w h fps : ℕ)
  | compare (w h fps br : ℕ)
  | readTarget
  -- The rest of an iteration.
  | body
  | stopped
  deriving DecidableEq, Repr

end Tuning

open Tuning

/-- The estimator and the encode loop around their configuration. -/
structure Tuning where
  config : EncoderConfig
  estimator : BandwidthEstimator
  /-- The stores of the current event that are still to come. -/
  pending : List ConfigStore := []
  phase : Phase := .initWidth
  encWidth : ℕ := 0
  encHeight : ℕ := 0
  encFps : ℕ := 0
  encBitrate : ℕ := 0
  appliedBitrate : ℕ := 0
  /-- Width, height and frame rate that the current session was created with. -/
  session : Option (ℕ × ℕ × ℕ) := none
  deriving DecidableEq

namespace Tuning

inductive Action
  /-- The estimator takes an event, when it has finished the one before. -/
  | event (event : BandwidthEvent) (t : Readings)
  | store
  /-- A step of the encode loop; a session that it asks for is created or not. -/
  | loop (created : Bool)

/-- A fresh configuration, before the encode loop has started. -/
def start (lastProbe lastDecrease : ℕ) : Tuning where
  config := .new
  estimator := .new .new lastProbe lastDecrease

/-- Create a session with the settings of the loop. -/
def createSession (s : Tuning) (created : Bool) (next : Phase) : Tuning :=
  if created then { s with session := some (s.encWidth, s.encHeight, s.encFps), phase := next }
  else { s with phase := .stopped }

def loopStep (s : Tuning) (created : Bool) : Option Tuning :=
  match s.phase with
  | .initWidth => some { s with encWidth := s.config.targetWidth, phase := .initHeight }
  | .initHeight => some { s with encHeight := s.config.targetHeight, phase := .initFps }
  | .initFps => some { s with encFps := s.config.targetFps, phase := .initBitrate }
  | .initBitrate =>
    some { s with
      encBitrate := s.config.targetBitrate
      appliedBitrate := s.config.targetBitrate
      phase := .create }
  | .create => some (s.createSession created .top)
  | .top =>
    some { s with
      config := { s.config with qualityChanged := false }
      phase := if s.config.qualityChanged then .readWidth else .readTarget }
  | .readWidth => some { s with phase := .readHeight s.config.targetWidth }
  | .readHeight w => some { s with phase := .readFps w s.config.targetHeight }
  | .readFps w h => some { s with phase := .readBitrate w h s.config.targetFps }
  | .readBitrate w h fps => some { s with phase := .compare w h fps s.config.targetBitrate }
  | .compare w h fps br =>
    if w ≠ s.encWidth ∨ h ≠ s.encHeight ∨ fps ≠ s.encFps then
      let s : Tuning := { s with
        encWidth := w, encHeight := h, encFps := fps, encBitrate := br, appliedBitrate := br }
      some (s.createSession created .readTarget)
    else some { s with phase := .readTarget }
  | .readTarget => some { s with appliedBitrate := s.config.targetBitrate, phase := .body }
  | .body => some { s with phase := .top }
  | .stopped => none

def step (s : Tuning) : Action → Option Tuning
  | .event event t =>
    match s.pending with
    | [] =>
      some { s with
        estimator := s.estimator.handleEvent event t
        pending := s.estimator.eventStores event t }
    | _ :: _ => none
  | .store =>
    match s.pending with
    | [] => none
    | store :: pending => some { s with config := s.config.store store, pending }
  | .loop created => s.loopStep created

/-! ## What the loop has loaded -/

/-- The value of a target that the loop will have; none while it is still to be loaded. -/
def view (s : Tuning) : Target → Option ℕ :=
  match s.phase with
  | .initWidth => fun _ => none
  | .initHeight => fun
    | .width => some s.encWidth
    | _ => none
  | .initFps => fun
    | .width => some s.encWidth
    | .height => some s.encHeight
    | .fps => none
  | .readWidth => fun _ => none
  | .readHeight w => fun
    | .width => some w
    | _ => none
  | .readFps w h => fun
    | .width => some w
    | .height => some h
    | .fps => none
  | .readBitrate w h fps => fun
    | .width => some w
    | .height => some h
    | .fps => some fps
  | .compare w h fps _ => fun
    | .width => some w
    | .height => some h
    | .fps => some fps
  | _ => fun
    | .width => some s.encWidth
    | .height => some s.encHeight
    | .fps => some s.encFps

/-- The stores that the flag announces. -/
def announcements (s : Tuning) : List (Store Target ℕ) :=
  s.pending.filterMap ConfigStore.announced

/-- The loop has, or will load, what the registers hold, unless it will find the flag up. -/
def UpToDate (s : Tuning) (pending : List (Store Target ℕ)) : Prop :=
  Fresh pending s.config.qualityChanged s.config.target s.view

/-- The phases with a session, and the settings of that session. -/
def SessionExact (s : Tuning) : Prop :=
  match s.phase with
  | .initWidth | .initHeight | .initFps | .initBitrate | .create | .stopped => True
  | _ => s.session = some (s.encWidth, s.encHeight, s.encFps)

variable {s s' : Tuning} {pending : List (Store Target ℕ)} {created : Bool}

theorem view_createSession {next : Phase} {pending : List (Store Target ℕ)}
    (hnext : next = .top ∨ next = .readTarget)
    (h : Fresh pending s.config.qualityChanged s.config.target fun
      | .width => some s.encWidth
      | .height => some s.encHeight
      | .fps => some s.encFps) : (s.createSession created next).UpToDate pending := by
  unfold createSession UpToDate view
  rcases hnext with rfl | rfl <;> cases created <;> exact h

/-- A step of the loop misses nothing. -/
theorem UpToDate.loop (h : s.UpToDate pending) (hs : s.loopStep created = some s') :
    s'.UpToDate pending := by
  unfold UpToDate view at h
  cases hphase : s.phase with
  | initWidth | readWidth =>
    simp only [loopStep, hphase, Option.some.injEq] at hs h
    subst hs
    exact h.load .width (by funext i; cases i <;> rfl)
  | initHeight | readHeight =>
    simp only [loopStep, hphase, Option.some.injEq] at hs h
    subst hs
    exact h.load .height (by funext i; cases i <;> rfl)
  | initFps | readFps =>
    simp only [loopStep, hphase, Option.some.injEq] at hs h
    subst hs
    exact h.load .fps (by funext i; cases i <;> rfl)
  | create =>
    simp only [loopStep, hphase, Option.some.injEq] at hs h
    subst hs
    exact view_createSession (.inl rfl) h
  | top =>
    simp only [loopStep, hphase, Option.some.injEq] at hs h
    subst hs
    unfold UpToDate view
    cases hflag : s.config.qualityChanged with
    | true => exact .restart
    | false => exact h.down hflag
  | compare w height fps br =>
    simp only [loopStep, hphase] at hs h
    split_ifs at hs with hne
    · obtain rfl := Option.some.inj hs
      exact view_createSession (.inr rfl) h
    · obtain rfl := Option.some.inj hs
      simp only [not_or, not_not] at hne
      obtain ⟨rfl, rfl, rfl⟩ := hne
      exact h
  | initBitrate | readBitrate | readTarget | body =>
    simp only [loopStep, hphase, Option.some.injEq] at hs h
    subst hs
    exact h
  | stopped =>
    simp only [loopStep, hphase] at hs
    cases hs

theorem sessionExact_createSession {next : Phase} :
    (s.createSession created next).SessionExact := by
  unfold createSession SessionExact
  cases created
  · trivial
  · cases next <;> trivial

theorem SessionExact.loop (h : s.SessionExact) (hs : s.loopStep created = some s') :
    s'.SessionExact := by
  unfold SessionExact at h
  cases hphase : s.phase with
  | create =>
    simp only [loopStep, hphase, Option.some.injEq] at hs
    subst hs
    exact sessionExact_createSession
  | top =>
    simp only [loopStep, hphase, Option.some.injEq] at hs h
    subst hs
    unfold SessionExact
    cases s.config.qualityChanged <;> exact h
  | compare w height fps br =>
    simp only [loopStep, hphase] at hs h
    split_ifs at hs
    · obtain rfl := Option.some.inj hs
      exact sessionExact_createSession
    · obtain rfl := Option.some.inj hs
      exact h
  | stopped =>
    simp only [loopStep, hphase] at hs
    cases hs
  | _ =>
    simp only [loopStep, hphase, Option.some.injEq] at hs h
    subst hs
    exact h

/-! ## The published targets -/

/-- Two configurations that differ in the flag at most. -/
structure SameTargets (cfg cfg' : EncoderConfig) : Prop where
  target : cfg.target = cfg'.target
  targetBitrate : cfg.targetBitrate = cfg'.targetBitrate

theorem SameTargets.store {cfg cfg' : EncoderConfig} (h : SameTargets cfg cfg')
    (store : ConfigStore) : SameTargets (cfg.store store) (cfg'.store store) := by
  cases store with
  | targetBitrate bps => exact ⟨h.target, rfl⟩
  | target field n =>
    refine ⟨?_, ?_⟩
    · rw [EncoderConfig.target_store, EncoderConfig.target_store, h.target]
    · cases field <;> exact h.targetBitrate
  | qualityChanged => exact ⟨h.target, h.targetBitrate⟩

theorem SameTargets.foldl {cfg cfg' : EncoderConfig} (h : SameTargets cfg cfg')
    (stores : List ConfigStore) :
    SameTargets (stores.foldl EncoderConfig.store cfg) (stores.foldl EncoderConfig.store cfg') := by
  induction stores generalizing cfg cfg' with
  | nil => exact h
  | cons store stores ih => exact ih (h.store store)

/-- What a step of the loop does to the rest; the flag is never raised, and down behind a swap. -/
structure Framed (s s' : Tuning) : Prop where
  config : SameTargets s'.config s.config
  pending : s'.pending = s.pending
  estimator : s'.estimator = s.estimator
  flag : s'.config.qualityChanged = true → s.config.qualityChanged = true ∧ s.phase ≠ .top
  applied : s'.phase = .body → s'.appliedBitrate = s'.config.targetBitrate

theorem framed_loop (hs : s.loopStep created = some s') : Framed s s' := by
  cases hphase : s.phase with
  | create =>
    simp only [loopStep, hphase, Option.some.injEq] at hs
    subst hs
    cases created <;> exact ⟨⟨rfl, rfl⟩, rfl, rfl, fun h => ⟨h, by simp [hphase]⟩, nofun⟩
  | top =>
    simp only [loopStep, hphase, Option.some.injEq] at hs
    subst hs
    refine ⟨⟨rfl, rfl⟩, rfl, rfl, nofun, fun h => ?_⟩
    dsimp only at h
    split_ifs at h
  | compare w height fps br =>
    simp only [loopStep, hphase] at hs
    split_ifs at hs
    · obtain rfl := Option.some.inj hs
      cases created <;> exact ⟨⟨rfl, rfl⟩, rfl, rfl, fun h => ⟨h, by simp [hphase]⟩, nofun⟩
    · obtain rfl := Option.some.inj hs
      exact ⟨⟨rfl, rfl⟩, rfl, rfl, fun h => ⟨h, by simp [hphase]⟩, nofun⟩
  | readTarget =>
    simp only [loopStep, hphase, Option.some.injEq] at hs
    subst hs
    exact ⟨⟨rfl, rfl⟩, rfl, rfl, fun h => ⟨h, by simp [hphase]⟩, fun _ => rfl⟩
  | stopped =>
    simp only [loopStep, hphase] at hs
    cases hs
  | _ =>
    simp only [loopStep, hphase, Option.some.injEq] at hs
    subst hs
    exact ⟨⟨rfl, rfl⟩, rfl, rfl, fun h => ⟨h, by simp [hphase]⟩, nofun⟩

/-- What holds before and after every step. -/
structure Sound (s : Tuning) : Prop where
  announced : Announced s.announcements
  upToDate : s.UpToDate s.announcements
  session : s.SessionExact
  published : SameTargets (s.pending.foldl EncoderConfig.store s.config) s.estimator.config

theorem Sound.start (lastProbe lastDecrease : ℕ) : (start lastProbe lastDecrease).Sound where
  announced := trivial
  upToDate := .restart
  session := trivial
  published := ⟨rfl, rfl⟩

theorem Sound.step {a : Action} (h : s.Sound) (hs : s.step a = some s') : s'.Sound := by
  cases a with
  | event event t =>
    cases hpending : s.pending with
    | cons store pending =>
      simp only [Tuning.step, hpending] at hs
      cases hs
    | nil =>
      simp only [Tuning.step, hpending, Option.some.injEq] at hs
      subst hs
      have hpublished := h.published
      rw [hpending] at hpublished
      have hup := h.upToDate
      rw [announcements, hpending] at hup
      refine ⟨BandwidthEstimator.announced_eventStores, hup.more, h.session, ?_⟩
      rw [← BandwidthEstimator.foldl_eventStores]
      exact hpublished.foldl _
  | store =>
    cases hpending : s.pending with
    | nil =>
      simp only [Tuning.step, hpending] at hs
      cases hs
    | cons store pending =>
      simp only [Tuning.step, hpending, Option.some.injEq] at hs
      subst hs
      have hann := h.announced
      have hup := h.upToDate
      have hpublished := h.published
      rw [announcements, hpending] at hann hup
      rw [hpending] at hpublished
      cases store with
      | targetBitrate bps => exact ⟨hann, hup, h.session, hpublished⟩
      | target field n =>
        refine ⟨hann.tail, ?_, h.session, hpublished⟩
        unfold UpToDate
        rw [EncoderConfig.target_store]
        exact .put hann
      | qualityChanged => exact ⟨hann.tail, .raise, h.session, hpublished⟩
  | loop created =>
    have hframed := framed_loop hs
    have hann : s'.announcements = s.announcements := by
      rw [announcements, announcements, hframed.pending]
    refine ⟨?_, ?_, h.session.loop hs, ?_⟩
    · rw [hann]
      exact h.announced
    · rw [hann]
      exact h.upToDate.loop hs
    · rw [hframed.pending, hframed.estimator]
      have hsame := hframed.config.foldl s.pending
      exact ⟨hsame.target.trans h.published.target,
        hsame.targetBitrate.trans h.published.targetBitrate⟩

/-! ## A full check -/

/-- The loop while it checks the configuration `cfg`, which no store changes. -/
structure Checking (cfg : EncoderConfig) (s : Tuning) : Prop where
  config : SameTargets s.config cfg
  upToDate : s.UpToDate []
  flag : s.phase = .top ∨ s.config.qualityChanged = false
  applied : s.phase = .body → s.appliedBitrate = s.config.targetBitrate
  session : s.SessionExact

theorem Checking.step {cfg : EncoderConfig} {a : Action} (h : Checking cfg s) (ha : a ≠ .store)
    (hs : s.step a = some s') : Checking cfg s' := by
  cases a with
  | store => exact absurd rfl ha
  | event event t =>
    unfold Tuning.step at hs
    cases hpending : s.pending with
    | cons store pending =>
      simp only [hpending] at hs
      cases hs
    | nil =>
      simp only [hpending, Option.some.injEq] at hs
      subst hs
      exact ⟨h.config, h.upToDate, h.flag, h.applied, h.session⟩
  | loop created =>
    have hframed := framed_loop hs
    refine ⟨⟨hframed.config.target.trans h.config.target,
      hframed.config.targetBitrate.trans h.config.targetBitrate⟩, h.upToDate.loop hs, .inr ?_,
      hframed.applied, h.session.loop hs⟩
    rw [Bool.eq_false_iff]
    intro hup
    obtain ⟨hflag, htop⟩ := hframed.flag hup
    rcases h.flag with hphase | hdown
    · exact htop hphase
    · rw [hdown] at hflag
      cases hflag

/-- What the encoder runs with is what is published. -/
structure Settled (cfg : EncoderConfig) (s : Tuning) : Prop where
  width : s.encWidth = cfg.targetWidth
  height : s.encHeight = cfg.targetHeight
  fps : s.encFps = cfg.targetFps
  bitrate : s.appliedBitrate = cfg.targetBitrate
  session : s.session = some (cfg.targetWidth, cfg.targetHeight, cfg.targetFps)

theorem Checking.settled {cfg : EncoderConfig} (h : Checking cfg s) (hbody : s.phase = .body) :
    Settled cfg s := by
  have hup := h.upToDate
  have hflag : s.config.qualityChanged = false := by
    rcases h.flag with htop | hflag
    · rw [hbody] at htop
      cases htop
    · exact hflag
  rw [UpToDate, hflag, h.config.target] at hup
  have hagree := hup.agree
  unfold view at hagree
  rw [hbody] at hagree
  have hw : cfg.targetWidth = s.encWidth := hagree .width _ rfl
  have hh : cfg.targetHeight = s.encHeight := hagree .height _ rfl
  have hfps : cfg.targetFps = s.encFps := hagree .fps _ rfl
  have hsession := h.session
  unfold SessionExact at hsession
  rw [hbody] at hsession
  refine ⟨hw.symm, hh.symm, hfps.symm, (h.applied hbody).trans h.config.targetBitrate, ?_⟩
  rw [hw, hh, hfps]
  exact hsession

/--
However stores and loads have overlapped: once the estimator has finished an event, a check that no
store interrupts leaves the encoder with the targets of the estimator.
-/
theorem settled_of_check {lastProbe lastDecrease : ℕ} {as bs : List Action}
    (hrun : Run step Free (start lastProbe lastDecrease) as s) (hidle : s.pending = [])
    (htop : s.phase = .top) (hcheck : Run step Free s bs s') (hstore : ∀ a ∈ bs, a ≠ .store)
    (hbody : s'.phase = .body) :
    Settled s.config s' ∧ SameTargets s.config s.estimator.config := by
  have hsound : s.Sound :=
    hrun.invariant (fun _ _ _ h _ hs => h.step hs) (.start lastProbe lastDecrease)
  have hpublished := hsound.published
  have hup := hsound.upToDate
  rw [hidle] at hpublished
  rw [announcements, hidle] at hup
  have hstart : Checking s.config s := by
    refine ⟨⟨rfl, rfl⟩, hup, .inl htop, fun h => ?_, hsound.session⟩
    rw [htop] at h
    cases h
  have hquiet : Run step (fun _ a => a ≠ .store) s bs s' :=
    hcheck.of_actions fun a ha _ => hstore a ha
  exact ⟨(hquiet.invariant (fun _ _ _ h ha hs => h.step ha hs) hstart).settled hbody, hpublished⟩

/-- The settings that the encode loop and this view of it share. -/
structure Refines (s : Tuning) (l : EncodeLoop) : Prop where
  config : l.config = some s.config
  width : l.encWidth = s.encWidth
  height : l.encHeight = s.encHeight
  fps : l.encFps = s.encFps
  bitrate : l.encBitrate = s.encBitrate
  applied : l.appliedBitrate = s.appliedBitrate

/-- A session is created behind a changed preset. -/
def recreate (s : Tuning) : Tuning :=
  if s.config.targetWidth ≠ s.encWidth ∨ s.config.targetHeight ≠ s.encHeight ∨
      s.config.targetFps ≠ s.encFps then
    { s with
      encWidth := s.config.targetWidth
      encHeight := s.config.targetHeight
      encFps := s.config.targetFps
      encBitrate := s.config.targetBitrate
      session := some (s.config.targetWidth, s.config.targetHeight, s.config.targetFps) }
  else s

/-- The whole check in one step. -/
def check (s : Tuning) : Tuning :=
  { (if s.config.qualityChanged then s.recreate else s) with
    config := { s.config with qualityChanged := false }
    appliedBitrate := s.config.targetBitrate
    phase := .body }

theorem exec_check (htop : s.phase = .top) :
    exec step s (List.replicate (if s.config.qualityChanged then 7 else 2) (.loop true)) =
      some s.check := by
  unfold check recreate
  cases hflag : s.config.qualityChanged with
  | false =>
    simp only [Bool.false_eq_true, if_false, List.replicate, exec, step, loopStep, htop, hflag,
      Option.bind_some]
  | true =>
    by_cases hne : s.config.targetWidth ≠ s.encWidth ∨ s.config.targetHeight ≠ s.encHeight ∨
        s.config.targetFps ≠ s.encFps
    · simp only [if_true, List.replicate, exec, step, loopStep, htop, hflag, Option.bind_some,
        if_pos hne, createSession]
    · simp only [if_true, List.replicate, exec, step, loopStep, htop, hflag, Option.bind_some,
        if_neg hne]

/-- A check that nothing interrupts does what the encode loop does in one step. -/
theorem Refines.check {l : EncodeLoop} (hl : s.Refines l) (hcancel : l.cancelled = false) :
    s.check.Refines (l.configure true) := by
  obtain ⟨hconfig, hw, hh, hfps, hbr, -⟩ := hl
  have hconfigure : l.configure true = { (if l.needsSession s.config then
        { l with taken := false, accepted := false }.recreateSession s.config
      else { l with taken := false, accepted := false }) with
      config := some { s.config with qualityChanged := false }
      appliedBitrate := s.config.targetBitrate
      phase := .receiving } := by
    simp only [EncodeLoop.configure, hcancel, hconfig, Bool.not_true, Bool.and_false,
      Bool.false_eq_true, if_false]
    rfl
  have hneeds : l.needsSession s.config = (s.config.qualityChanged &&
      decide (s.config.targetWidth ≠ s.encWidth ∨ s.config.targetHeight ≠ s.encHeight ∨
        s.config.targetFps ≠ s.encFps)) := by
    rw [EncodeLoop.needsSession, hw, hh, hfps]
  rw [hconfigure, hneeds]
  unfold Tuning.check recreate
  cases s.config.qualityChanged with
  | false => exact ⟨rfl, hw, hh, hfps, hbr, rfl⟩
  | true =>
    by_cases hne : s.config.targetWidth ≠ s.encWidth ∨ s.config.targetHeight ≠ s.encHeight ∨
        s.config.targetFps ≠ s.encFps
    · simp only [decide_eq_true hne, Bool.and_self, if_true, if_pos hne]
      exact ⟨rfl, rfl, rfl, rfl, rfl, rfl⟩
    · simp only [decide_eq_false hne, Bool.and_false, Bool.false_eq_true, if_false, if_true,
        if_neg hne]
      exact ⟨rfl, hw, hh, hfps, hbr, rfl⟩

/-- The estimator is told of a stopped stream while the encode loop loads its first settings. -/
def earlyStop : List Action :=
  [.loop true, .event .streamStopped ⟨0, 0, 0⟩, .store, .loop true, .store, .loop true, .store,
    .loop true, .loop true, .store, .store]

theorem settled_of_check_earlyStop : ∃ s s' : Tuning, exec step (start 0 0) earlyStop = some s ∧
    s.config.qualityChanged = true ∧ exec step s (List.replicate 7 (.loop true)) = some s' ∧
    Settled s.config s' ∧ SameTargets s.config s.estimator.config := by
  have hmap : (exec step (start 0 0) earlyStop).map
      (fun s => (s.pending, s.phase, s.config.qualityChanged)) = some ([], .top, true) := by
    decide +kernel
  obtain ⟨s, hs, hfields⟩ := Option.map_eq_some_iff.mp hmap
  obtain ⟨hidle, hrest⟩ := Prod.mk.inj hfields
  obtain ⟨htop, hflag⟩ := Prod.mk.inj hrest
  have hcheck := exec_check htop
  rw [hflag, if_pos rfl] at hcheck
  have hstore : ∀ a ∈ List.replicate 7 (Action.loop true), a ≠ .store := by
    intro a ha
    rw [List.eq_of_mem_replicate ha]
    nofun
  exact ⟨s, s.check, hs, hflag, hcheck,
    settled_of_check (run_of_exec hs) hidle htop (run_of_exec hcheck) hstore rfl⟩

end Tuning

end Meshconf.Video
