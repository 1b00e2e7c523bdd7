import MinimalistOS.Kernel.KeyboardIntl
import MinimalistOS.Spec.KeyboardLights

/-!
# The lights of the keyboard follow the locks

* `LightsFollow` — the lights are what the locks say
* `step_lights` — what a call does to the lights
* `lights_follow_iff` — they follow the locks as long as `keyboard_intl_init` is called with all
  locks off, and not after a call of it with one on

`keyboard_intl_init` clears the locks without saying so to the keyboard.
-/

namespace MinimalistOS

open Infra

namespace KeyboardIntl

/-- The lights of the keyboard. -/
def lights (s : KeyboardIntl) : Lights := Lights.off.after s.sent

/-- The lights are what the locks say, and no command is left unfinished. -/
def LightsFollow (s : KeyboardIntl) : Prop := s.lights = ⟨ledFlags s, false⟩

/-- The lights are out when the driver is initialized. -/
def ClearsNothing (s : KeyboardIntl) : KeyboardIntlCall → Prop
  | .init => ledFlags s = 0
  | _ => True

instance (s : KeyboardIntl) (call : KeyboardIntlCall) : Decidable (s.ClearsNothing call) := by
  cases call <;> unfold ClearsNothing <;> infer_instance

/-! ## One call -/

theorem lights_updateLeds {s : KeyboardIntl} (h : s.lights.waiting = false) :
    (keyboardIntlUpdateLeds s).LightsFollow := by
  have hcommand : (s.outb 0xED).lights = { s.lights with waiting := true } := by
    show Lights.off.after (s.sent ++ [0xED]) = _
    rw [Lights.after_append]
    show (s.lights).receive 0xED = _
    rw [Lights.receive, h]
    rfl
  show Lights.off.after ((s.outb 0xED).sent ++ [ledFlags s]) = ⟨ledFlags s, false⟩
  rw [Lights.after_append]
  show (s.outb 0xED).lights.receive (ledFlags s) = _
  rw [hcommand]
  rfl

/-- The lights and the locks are the same. -/
def SameLights (s s' : KeyboardIntl) : Prop := s'.lights = s.lights ∧ ledFlags s' = ledFlags s

theorem SameLights.follow {s s' : KeyboardIntl} (h : SameLights s s') (hs : s.LightsFollow) :
    s'.LightsFollow := by
  rw [LightsFollow, h.1, h.2]
  exact hs

theorem follow_ite {p : Prop} [Decidable p] {s s' : KeyboardIntl} (hs : s.LightsFollow)
    (hs' : s'.LightsFollow) : (if p then s else s').LightsFollow := by
  split
  · exact hs
  · exact hs'

theorem lights_extended {s : KeyboardIntl} (h : s.LightsFollow) (extendedScancode : Byte) :
    (handleExtendedKeys s extendedScancode).LightsFollow := by
  unfold handleExtendedKeys
  iterate 2 refine follow_ite (SameLights.follow ⟨rfl, rfl⟩ h) ?_
  exact h

theorem lights_special {s : KeyboardIntl} (h : s.LightsFollow) (scancode extendedScancode : Byte) :
    (handleSpecialKeys s scancode extendedScancode).LightsFollow := by
  have hwaiting : ∀ s' : KeyboardIntl, s'.lights = s.lights → s'.lights.waiting = false := by
    intro s' hs'
    rw [hs', show s.lights = ⟨ledFlags s, false⟩ from h]
  unfold handleSpecialKeys
  -- the keys that are held
  iterate 6 refine follow_ite (SameLights.follow ⟨rfl, rfl⟩ h) ?_
  refine follow_ite (lights_extended h extendedScancode) ?_
  -- the locks
  iterate 3 refine follow_ite (lights_updateLeds (hwaiting _ rfl)) ?_
  exact h

theorem getchar_fst (s : KeyboardIntl) (scancode extendedScancode : Byte) :
    (keyboardIntlGetchar s scancode extendedScancode).1
      = handleSpecialKeys s scancode extendedScancode := by
  unfold keyboardIntlGetchar
  dsimp only
  split_ifs
  · rfl
  · rfl
  · rfl
  · rfl

theorem lights_init {s : KeyboardIntl} (h : s.LightsFollow) :
    (keyboardIntlInit s).lights = ⟨ledFlags s, false⟩ ∧ ledFlags (keyboardIntlInit s) = 0 := by
  refine ⟨?_, by simp [ledFlags, keyboardIntlInit, outb]⟩
  show Lights.off.after (s.sent ++ [0xF4]) = _
  rw [Lights.after_append, show Lights.off.after s.sent = ⟨ledFlags s, false⟩ from h]
  rfl

/-- A call keeps the lights right, but for an initialization that clears a lock. -/
theorem step_lights {s : KeyboardIntl} (h : s.LightsFollow) {call : KeyboardIntlCall}
    (hcall : s.ClearsNothing call) : (s.step call).1.LightsFollow := by
  cases call with
  | init =>
    obtain ⟨hlights, hflags⟩ := lights_init h
    show (keyboardIntlInit s).lights = ⟨ledFlags (keyboardIntlInit s), false⟩
    rw [hlights, hflags, show ledFlags s = 0 from hcall]
  | setLayout layoutIndex =>
    show (keyboardIntlSetLayout s layoutIndex).1.LightsFollow
    unfold keyboardIntlSetLayout
    split
    · exact h
    · exact SameLights.follow ⟨rfl, rfl⟩ h
  | getchar scancode extendedScancode =>
    show (keyboardIntlGetchar s scancode extendedScancode).1.LightsFollow
    rw [getchar_fst]
    exact lights_special h scancode extendedScancode
  | setLeds caps num scroll =>
    refine @lights_updateLeds
      { s with capsLock := caps, numLock := num, scrollLock := scroll } ?_
    show s.lights.waiting = false
    rw [show s.lights = ⟨ledFlags s, false⟩ from h]

/-- An initialization that clears a lock leaves its light on. -/
theorem init_breaks {s : KeyboardIntl} (h : s.LightsFollow) {call : KeyboardIntlCall}
    (hcall : ¬ s.ClearsNothing call) : ¬ (s.step call).1.LightsFollow := by
  cases call with
  | init =>
    obtain ⟨hlights, hflags⟩ := lights_init h
    intro hfollow
    have hnew : (keyboardIntlInit s).lights = ⟨ledFlags (keyboardIntlInit s), false⟩ := hfollow
    have heq := hlights.symm.trans hnew
    rw [hflags] at heq
    exact hcall (congrArg Lights.flags heq)
  | setLayout layoutIndex => exact absurd trivial hcall
  | getchar scancode extendedScancode => exact absurd trivial hcall
  | setLeds caps num scroll => exact absurd trivial hcall

end KeyboardIntl

/--
**The lights of the keyboard follow the locks.**

A keyboard is switched on with its lights out, and gets what the driver sends. In every state of a
run the lights are on for the locks that are on, and for no others, exactly when each call of
`keyboard_intl_init` in the run comes with all locks off.
-/
theorem lights_follow_iff (calls : List KeyboardIntlCall) :
    (∀ pre, pre <+: calls → (run KeyboardIntl.step .boot pre).LightsFollow) ↔
      Along KeyboardIntl.step KeyboardIntl.ClearsNothing .boot calls :=
  safe_iff_along KeyboardIntl.step (I := KeyboardIntl.LightsFollow) (Q := fun _ => True)
    (fun _ h => h) (fun _ _ _ h hcall => KeyboardIntl.step_lights h hcall)
    (fun _ _ _ h hcall => KeyboardIntl.init_breaks h hcall)
    (show KeyboardIntl.boot.LightsFollow from rfl) fun _ _ => trivial

end MinimalistOS
