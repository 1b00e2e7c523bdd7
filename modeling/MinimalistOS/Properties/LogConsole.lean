import MinimalistOS.Properties.ProcessList
import MinimalistOS.Properties.VgaRows
import MinimalistOS.Spec.LogView

/-!
# The log on the screen is the log as rows

* `printed_buffer` — what is printed of the buffer of `log_vprintf` is the text of the message
* `printLogPrefix_spec` — the prefix is the tag of the level, in its colour
* `log_follows_view` — after any requests the screen shows the last rows of the log
-/

namespace MinimalistOS

open Infra

/-! ## The text of a message -/

/-- The buffer after a call holds the text as far as it fits. -/
theorem vsnprintf.Appends.holds {n : Nat} {bytes : Nat → Byte} {st : FormatState}
    {text : List Byte} {t : List Taken}
    (h : vsnprintf.Appends n ⟨⟨.fresh bytes, 0⟩, [], []⟩ st text t)
    (hnul : ∀ c ∈ text.take (n - 1), c ≠ 0) :
    st.terminate.out.buf.Holds (text.take (n - 1)) := by
  have hi : st.out.i = (text.take (n - 1)).length := by
    rw [h.out, List.length_take]
    simp only [Sink.emit]
    omega
  refine ⟨hnul, fun j hj => ?_, ?_⟩
  · have hlen := List.length_take (i := n - 1) (l := text)
    have hlt : j < text.length := by omega
    have hget := Sink.emit_bytes_add ⟨.fresh bytes, 0⟩ (n - 1) hlt (by simp only; omega)
    rw [FormatState.terminate, Buffer.set_bytes_of_ne _ _ (by omega), h.out, List.getElem_take,
      ← hget, Nat.zero_add]
  · rw [← hi]
    exact Buffer.set_bytes_self _ _ _

/-- The buffer of `log_vprintf`, as `vga_print` takes it. -/
theorem printed_buffer {format : CString} {args : List FormatArg}
    (hargs : vsnprintf.Matches format.bytes args) (htext : OutputText (messageText format args))
    (stack : LogStack) :
    ∃ ret st, vsnprintf stack.numbers (some (.fresh stack.buffer)) logBufferBytes format args
        = some (ret, some st) ∧
      printed st.out.buf logBufferBytes = messageText format args := by
  obtain ⟨st, t, hrun, happ, -⟩ := vsnprintf_spec hargs stack.numbers (.fresh stack.buffer)
    (n := logBufferBytes) (by decide)
  refine ⟨_, _, hrun, printed_of_holds (happ.holds fun c hc => ?_) ?_⟩
  · rintro rfl
    rcases htext 0 hc with hp | hn
    · exact absurd hp (by decide)
    · exact absurd hn (by decide)
  · rw [List.length_take]
    exact Nat.lt_of_le_of_lt (Nat.min_le_left _ _) (by decide)

/-! ## One message -/

theorem outputText_levelTag (level : Word) : OutputText (levelTag level) := by
  unfold levelTag
  split_ifs
  · decide
  · decide
  · decide
  · decide
  · decide
  · decide

/-- The prefix is the tag of the level, in its colour if it has one. -/
theorem printLogPrefix_spec (level : Word) (v : Vga) :
    ∃ w : Vga, printLogPrefix level v = (levelTag level).foldl vgaPutchar w ∧
      w.currentColor = (levelColor level).getD v.currentColor ∧
      ∀ {rows row}, Scrolls v rows row → Scrolls w rows row := by
  unfold printLogPrefix levelTag levelColor
  split_ifs
  · exact ⟨vgaSetColor v 7 0, rfl, rfl, fun h => h.setColor 7 0⟩
  · exact ⟨vgaSetColor v 2 0, rfl, rfl, fun h => h.setColor 2 0⟩
  · exact ⟨vgaSetColor v 6 0, rfl, rfl, fun h => h.setColor 6 0⟩
  · exact ⟨vgaSetColor v 12 0, rfl, rfl, fun h => h.setColor 12 0⟩
  · exact ⟨vgaSetColor v 15 4, rfl, rfl, fun h => h.setColor 15 4⟩
  · exact ⟨v, rfl, rfl, id⟩

/-- The state of the log is what the view says, and the cursor is at the start of a free row. -/
structure LogConsole.Shows (s : LogConsole) (view : LogView) : Prop where
  level : s.currentLogLevel = view.threshold
  color : s.screen.currentColor = view.color
  rows : Scrolls s.screen view.rows []

/-- The arguments are those of the format, and the text has printable lines that fit into rows. -/
structure MessageFits (level : Word) (format : CString) (args : List FormatArg) : Prop where
  matched : vsnprintf.Matches format.bytes args
  text : OutputText (messageText format args)
  lines : ∀ line ∈ messageLines level format args, line.length ≤ vgaWidth

/-- A message is printed as the view has it. -/
theorem LogConsole.Shows.message {s : LogConsole} {view : LogView} (h : s.Shows view) {level : Word}
    {format : CString} {args : List FormatArg} (hfits : MessageFits level format args)
    (stack : LogStack) :
    ∃ s', logVprintf stack s level format args = some s' ∧ s'.Shows (view.add level format args) := by
  unfold logVprintf LogView.add
  rw [h.level]
  by_cases hbelow : level < view.threshold
  · rw [if_pos hbelow, if_pos hbelow]
    exact ⟨s, rfl, h⟩
  · rw [if_neg hbelow, if_neg hbelow]
    obtain ⟨ret, st, hrun, hprinted⟩ := printed_buffer hfits.matched hfits.text stack
    obtain ⟨w, htag, hcolor, hscrolls⟩ := printLogPrefix_spec level s.screen
    rw [h.color] at hcolor
    have htext : OutputText (levelTag level ++ messageText format args) :=
      (outputText_levelTag level).append hfits.text
    -- prefix, buffer and newline are one text in one colour
    have hscreen : vgaPrint (vgaPrint (printLogPrefix level s.screen)
          (CString.ofBytes (printed st.out.buf logBufferBytes))) (literal "\n")
        = (levelTag level ++ messageText format args ++ [0x0A]).foldl vgaPutchar w := by
      have hnewline : (literal "\n").bytes = [0x0A] := by decide
      rw [htag, hprinted, vgaPrint, vgaPrint, hfits.text.bytes_ofBytes, hnewline,
        List.foldl_append, List.foldl_append]
    have hlines := (hscrolls h.rows).lines htext hfits.lines
    rw [← hscreen, hcolor] at hlines
    refine ⟨_, by simp only [hrun]; rfl, rfl, ?_, hlines⟩
    rw [hscreen, print_currentColor, hcolor]

/-! ## Requests -/

/-- What the log expects of a request. -/
def LogRequest.Fits : LogRequest → Prop
  | .setLevel _ => True
  | .printf level format args => MessageFits level format args
  | .debug format args => MessageFits 0 format args
  | .info format args => MessageFits 1 format args
  | .warn format args => MessageFits 2 format args
  | .error format args => MessageFits 3 format args
  | .critical format args => MessageFits 4 format args

theorem LogConsole.Shows.step {s : LogConsole} {view : LogView} (h : s.Shows view)
    (stack : LogStack) {request : LogRequest} (hfits : request.Fits) :
    ∃ s', s.step (stack, request) = some s' ∧ s'.Shows (view.step request) := by
  cases request with
  | setLevel level => exact ⟨_, rfl, rfl, h.color, h.rows⟩
  | printf level format args => exact h.message hfits stack
  | debug format args => exact h.message hfits stack
  | info format args => exact h.message hfits stack
  | warn format args => exact h.message hfits stack
  | error format args => exact h.message hfits stack
  | critical format args => exact h.message hfits stack

theorem LogConsole.Shows.run {calls : List (LogStack × LogRequest)}
    (hcalls : ∀ call ∈ calls, call.2.Fits) : ∀ {s : LogConsole} {view : LogView}, s.Shows view →
      ∃ s', calls.foldlM LogConsole.step s = some s' ∧
        s'.Shows ((calls.map Prod.snd).foldl LogView.step view) := by
  induction calls with
  | nil => exact fun {s} {view} h => ⟨s, rfl, h⟩
  | cons call calls ih =>
    intro s view h
    obtain ⟨s₁, hstep, h₁⟩ := h.step call.1 (hcalls call List.mem_cons_self)
    obtain ⟨s₂, hrun, h₂⟩ := ih (fun c hc => hcalls c (List.mem_cons_of_mem call hc)) h₁
    refine ⟨s₂, ?_, h₂⟩
    rw [List.foldlM_cons, hstep]
    exact hrun

theorem initMessageFits :
    MessageFits 1 (literal "Kernel logging system initialized") [] where
  matched := by unfold vsnprintf.Matches; decide
  text := by decide
  lines := by unfold messageLines; decide

/-- `log_init` clears the screen and prints its message in the first row. -/
theorem logInit_shows (stack : LogStack) (s : LogConsole) :
    ∃ s', logInit stack s = some s' ∧ s'.Shows (LogView.start s.currentLogLevel) := by
  have hclear : LogConsole.Shows { s with screen := vgaClear (vgaInit s.screen) }
      ⟨s.currentLogLevel, 0x07, []⟩ := by
    refine ⟨rfl, ?_, Scrolls.clear _⟩
    exact (vgaClear_spec _).1.trans (vgaClear_spec _).1
  exact hclear.message initMessageFits stack

/--
**The log on the screen is the log as rows.**

From `log_init` on, at whatever level and on whatever screen, and whatever stands in the local
arrays: after any requests whose texts are lines that fit into rows, each message at or above the
level set last before it is on the screen in lines of its own, in the colour of its level and in
order, as far as the screen has room for the last of them; no other message leaves anything. The
cursor is at the start of the free row below the last line, which is one of the 25 rows that are
seen: at most 24 of them are rows of messages.
-/
theorem log_follows_view (level : Word) (screen : Vga) (stack : LogStack)
    (calls : List (LogStack × LogRequest)) (hcalls : ∀ call ∈ calls, call.2.Fits) :
    ∃ s, ((logInit stack ⟨level, screen⟩).bind fun s => calls.foldlM LogConsole.step s) = some s ∧
      s.Shows ((calls.map Prod.snd).foldl LogView.step (LogView.start level)) := by
  obtain ⟨s₁, hinit, h₁⟩ := logInit_shows stack ⟨level, screen⟩
  obtain ⟨s₂, hrun, h₂⟩ := LogConsole.Shows.run hcalls h₁
  refine ⟨s₂, ?_, h₂⟩
  rw [hinit]
  exact hrun

/-- Local arrays that nobody has cleared. -/
def usedStack : LogStack := ⟨fun _ => 0xCC, fun _ _ => 0xCC⟩

/-- A warning below the level, an error, and a message of a number that is no level. -/
def errorLog : List LogRequest :=
  [.setLevel 3, .warn (literal "slow") [], .error (literal "disk %d: %s") [.int 3, .str none],
    .printf 9 (literal "halt\nnow") []]

/-- The last message takes over the colour of the error. -/
theorem log_follows_view_error :
    ∃ s, ((logInit usedStack ⟨0, bootScreen⟩).bind fun s =>
        (errorLog.map (usedStack, ·)).foldlM LogConsole.step s) = some s ∧
      s.Shows ⟨3, 0x0C, [colored 0x02 (ascii "[INFO]  Kernel logging system initialized"),
        colored 0x0C (ascii "[ERROR] disk 3: (null)"), colored 0x0C (ascii "[LOG]   halt"),
        colored 0x0C (ascii "now")]⟩ := by
  have hfits : ∀ call ∈ errorLog.map (usedStack, ·), call.2.Fits := by
    intro call hcall
    obtain ⟨request, hrequest, rfl⟩ := List.mem_map.mp hcall
    simp only [errorLog, List.mem_cons, List.not_mem_nil, or_false] at hrequest
    rcases hrequest with rfl | rfl | rfl | rfl
    · trivial
    · exact ⟨by unfold vsnprintf.Matches; decide, by decide, by unfold messageLines; decide⟩
    · exact ⟨by unfold vsnprintf.Matches; decide, by decide, by unfold messageLines; decide⟩
    · exact ⟨by unfold vsnprintf.Matches; decide, by decide, by unfold messageLines; decide⟩
  have hview : ((errorLog.map (usedStack, ·)).map Prod.snd).foldl LogView.step (LogView.start 0)
      = ⟨3, 0x0C, [colored 0x02 (ascii "[INFO]  Kernel logging system initialized"),
        colored 0x0C (ascii "[ERROR] disk 3: (null)"), colored 0x0C (ascii "[LOG]   halt"),
        colored 0x0C (ascii "now")]⟩ := by
    rw [List.map_map]
    decide +kernel
  exact hview ▸ log_follows_view 0 bootScreen usedStack _ hfits

end MinimalistOS
