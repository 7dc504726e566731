import AeloonRuntime.Lib.Utf8Replace
import AeloonRuntime.Tool.Truncate
import Mathlib.Data.List.DropRight

namespace AeloonRuntime

open Py

/-!
# Tool — bash

What `BashTool.execute` makes of the chunks that `pump` reads: the last bytes are kept, decoded, stripped of the
line breaks at their end and truncated; an empty rest is shown as `(no output)`.

* `pumpData` — one chunk; `pumped_spec` — what all chunks leave, whatever they are;
* `bashResult` — the result of the tool;
* `bash_output_eq_nil_iff` — when nothing is shown;
* `bash_no_output_iff` — `truncate_tail` keeps its promises, and `(no output)` is the truth, exactly if no tail is
  too long and the bytes that are kept are not line breaks behind something else.
-/

/-! ### The tool -/

/-- What `pump` keeps of the output. -/
structure Pumped where
  tail : List UInt8 := []
  outputBytes : Nat := 0
  newlineCount : Nat := 0
  endedWithNewline : Bool := false

/-- `pump` with one chunk. -/
def pumpData (state : Pumped) (data : List UInt8) : Pumped :=
  let tail := state.tail ++ data
  { tail := if defaultMaxBytes + 4 < tail.length then tail.drop (tail.length - defaultMaxBytes - 4) else tail
    outputBytes := state.outputBytes + data.length
    newlineCount := state.newlineCount + data.count newlineByte
    endedWithNewline := data.getLast? = some newlineByte }

/-- `pump` with all chunks, of either stream, in the order in which they are read. -/
def pumped (chunks : List (List UInt8)) : Pumped := chunks.foldl pumpData {}

/-- The text and the details of `BashTool.execute`. -/
structure BashResult where
  text : List Char
  command : List Char
  output : List Char
  outputBytes : Nat
  outputLines : Nat
  exitCode : Int
  truncated : Bool
  fullOutputPath : Option (List Char)

/-- `text.rstrip("\n")`. -/
def rstripNewlines (text : List Char) : List Char := text.rdropWhile (· == '\n')

/-- `BashTool.execute` of a command that ends: its chunks, `process.returncode`, and the path of the whole output
if it is kept. -/
def bashResult (command : List Char) (chunks : List (List UInt8)) (returncode : Int) (fullPath : List Char) :
    BashResult :=
  let state := pumped chunks
  let outputLines := state.newlineCount + if 0 < state.outputBytes ∧ ¬state.endedWithNewline then 1 else 0
  let output := rstripNewlines (decodeReplace state.tail)
  let (visible, tailTruncated) := truncateTail output
  let truncated := decide (defaultMaxBytes < state.outputBytes) || decide (2000 < outputLines) || tailTruncated
  let fullOutputPath := if truncated then some fullPath else none
  let rendered := if visible = [] then "(no output)".toList else visible
  let exited := if returncode ≠ 0 then "\n\nCommand exited with code ".toList ++ (toString returncode).toList else []
  let logged := match fullOutputPath with
    | some path => "\n\n[Output truncated. Full output: ".toList ++ path ++ "]".toList
    | none => []
  { text := rendered ++ exited ++ logged
    command := command
    output := visible
    outputBytes := state.outputBytes
    outputLines := outputLines
    exitCode := returncode
    truncated := truncated
    fullOutputPath := fullOutputPath }

/-! ### What is kept -/

/-- The last bytes of what was kept and a chunk are the last bytes of all. -/
theorem rtake_rtake_append {α : Type} (n : Nat) (sent data : List α) :
    (sent.rtake n ++ data).rtake n = (sent ++ data).rtake n := by
  rw [List.rtake_eq_reverse_take_reverse, List.rtake_eq_reverse_take_reverse, List.rtake_eq_reverse_take_reverse,
    List.reverse_append, List.reverse_append, List.reverse_reverse, List.take_append, List.take_append,
    List.take_take, List.length_reverse, Nat.min_eq_left (Nat.sub_le n data.length)]

theorem pumpData_tail (state : Pumped) (data : List UInt8) :
    (pumpData state data).tail = (state.tail ++ data).rtake (defaultMaxBytes + 4) := by
  show (if _ then _ else _) = List.drop _ _
  by_cases hlong : defaultMaxBytes + 4 < (state.tail ++ data).length
  · rw [if_pos hlong, Nat.sub_sub]
  · rw [if_neg hlong, Nat.sub_eq_zero_of_le (Nat.le_of_not_lt hlong), List.drop_zero]

/-- **One chunk after the other.** Whatever the chunks are, the last bytes are kept, and bytes and line breaks are
counted. -/
theorem foldl_pumpData (chunks : List (List UInt8)) (state : Pumped) (sent : List UInt8)
    (htail : state.tail = sent.rtake (defaultMaxBytes + 4)) (hbytes : state.outputBytes = sent.length)
    (hcount : state.newlineCount = sent.count newlineByte) :
    (chunks.foldl pumpData state).tail = (sent ++ chunks.flatten).rtake (defaultMaxBytes + 4)
      ∧ (chunks.foldl pumpData state).outputBytes = (sent ++ chunks.flatten).length
      ∧ (chunks.foldl pumpData state).newlineCount = (sent ++ chunks.flatten).count newlineByte := by
  induction chunks generalizing state sent with
  | nil =>
    rw [List.flatten_nil, List.append_nil]
    exact ⟨htail, hbytes, hcount⟩
  | cons data chunks ih =>
    rw [List.foldl_cons, List.flatten_cons, ← List.append_assoc]
    apply ih
    · rw [pumpData_tail, htail, rtake_rtake_append]
    · rw [List.length_append, ← hbytes]
      rfl
    · rw [List.count_append, ← hcount]
      rfl

theorem pumped_spec (chunks : List (List UInt8)) :
    (pumped chunks).tail = chunks.flatten.rtake (defaultMaxBytes + 4)
      ∧ (pumped chunks).outputBytes = chunks.flatten.length
      ∧ (pumped chunks).newlineCount = chunks.flatten.count newlineByte :=
  foldl_pumpData chunks {} [] rfl rfl rfl

/-! ### What is shown -/

/-- The text that is truncated. -/
def shownText (bytes : List UInt8) : List Char := rstripNewlines (decodeReplace (bytes.rtake (defaultMaxBytes + 4)))

theorem bashResult_output (command : List Char) (chunks : List (List UInt8)) (returncode : Int)
    (fullPath : List Char) :
    (bashResult command chunks returncode fullPath).output = (truncateTail (shownText chunks.flatten)).1 := by
  rw [shownText, ← (pumped_spec chunks).1]
  rfl

/-- `decodeReplace` of line breaks. -/
theorem decodeReplace_newlines {bytes : List UInt8} (h : ∀ b ∈ bytes, b = newlineByte) :
    ∀ c ∈ decodeReplace bytes, c = '\n' := by
  induction bytes with
  | nil => simp
  | cons b bytes ih =>
    obtain ⟨rfl, hbytes⟩ := List.forall_mem_cons.mp h
    have hsplit := decodeReplace_ascii (b := newlineByte) (by decide) [] bytes
    rw [List.nil_append, decodeReplace_nil, List.nil_append] at hsplit
    rw [hsplit]
    exact List.forall_mem_cons.mpr ⟨rfl, ih hbytes⟩

theorem rstripNewlines_eq_nil_iff {text : List Char} : rstripNewlines text = [] ↔ ∀ c ∈ text, c = '\n' := by
  simp [rstripNewlines, List.rdropWhile_eq_nil_iff]

/-- There is no text exactly if the bytes that are kept are line breaks. -/
theorem shownText_eq_nil_iff (bytes : List UInt8) :
    shownText bytes = [] ↔ ∀ b ∈ bytes.rtake (defaultMaxBytes + 4), b = newlineByte := by
  rw [shownText, rstripNewlines_eq_nil_iff]
  exact ⟨forall_newline_of_decodeReplace, decodeReplace_newlines⟩

/-- **Nothing is shown** exactly if the bytes that are kept are line breaks, or their text has a tail that is too
long. -/
theorem bash_output_eq_nil_iff (command : List Char) (chunks : List (List UInt8)) (returncode : Int)
    (fullPath : List Char) :
    (bashResult command chunks returncode fullPath).output = []
      ↔ (∀ b ∈ chunks.flatten.rtake (defaultMaxBytes + 4), b = newlineByte)
        ∨ TailTooLong (shownText chunks.flatten) := by
  rw [bashResult_output, ← shownText_eq_nil_iff]
  by_cases hnil : shownText chunks.flatten = []
  · rw [hnil, truncateTail_of_fits (by
      rw [splitlines_nil, utf8Size_nil]
      exact ⟨Nat.zero_le _, Nat.zero_le _⟩)]
    exact ⟨.inl, fun _ => rfl⟩
  · rw [truncateTail_eq_nil_iff hnil, or_iff_right hnil]

/-! ### The tail -/

/-- What is expected of `truncate_tail`: both limits, the end of the text, and something of a text that is not
empty. -/
structure KeepsTail (text : List Char) : Prop where
  lines : (splitlines (truncateTail text).1).length ≤ defaultMaxLines
  bytes : utf8Size (truncateTail text).1 ≤ defaultMaxBytes
  suffix : (truncateTail text).1 = text ∨ ∃ kept, kept <:+ splitlines text ∧ (truncateTail text).1 = joinLines kept
  nonempty : text ≠ [] → (truncateTail text).1 ≠ []

/-- Nothing is shown, and the text says so. -/
def BashResult.ReportsNoOutput (result : BashResult) : Prop :=
  result.output = [] ∧ "(no output)".toList <+: result.text

/-- `(no output)` is said whenever nothing is shown. -/
theorem reportsNoOutput_iff (command : List Char) (chunks : List (List UInt8)) (returncode : Int)
    (fullPath : List Char) :
    (bashResult command chunks returncode fullPath).ReportsNoOutput
      ↔ (bashResult command chunks returncode fullPath).output = [] := by
  refine ⟨And.left, fun hnil => ⟨hnil, ?_⟩⟩
  show _ <+: (if (bashResult command chunks returncode fullPath).output = [] then _ else _) ++ _ ++ _
  rw [if_pos hnil, List.append_assoc]
  exact List.prefix_append _ _

/-- **The tail of a text.** Nothing but the emptiness of what is kept ever fails. -/
theorem keepsTail_iff (text : List Char) : KeepsTail text ↔ ¬TailTooLong text := by
  by_cases hnil : text = []
  · subst hnil
    refine ⟨fun _ => not_tailTooLong_nil, fun _ => ?_⟩
    exact ⟨(truncateTail_limits []).1, (truncateTail_limits []).2, truncateTail_suffix [], fun h => absurd rfl h⟩
  · constructor
    · intro h hlong
      exact h.nonempty hnil ((truncateTail_eq_nil_iff hnil).mpr hlong)
    · intro hfits
      refine ⟨(truncateTail_limits text).1, (truncateTail_limits text).2, truncateTail_suffix text, ?_⟩
      intro _ hempty
      exact hfits ((truncateTail_eq_nil_iff hnil).mp hempty)

/-- **`(no output)`.** A text keeps its tail exactly if the tail is not too long; the tool says `(no output)` of
line breaks only exactly if the same holds of the bytes that are kept, and they are not line breaks behind
something else. -/
theorem bash_no_output_iff (text command : List Char) (chunks : List (List UInt8)) (returncode : Int)
    (fullPath : List Char) :
    (KeepsTail text ↔ ¬TailTooLong text)
      ∧ (((bashResult command chunks returncode fullPath).ReportsNoOutput → ∀ b ∈ chunks.flatten, b = newlineByte)
          ↔ ¬TailTooLong (shownText chunks.flatten)
            ∧ ((∀ b ∈ chunks.flatten, b = newlineByte)
              ∨ ∃ b ∈ chunks.flatten.rtake (defaultMaxBytes + 4), b ≠ newlineByte)) := by
  refine ⟨keepsTail_iff text, ?_⟩
  rw [reportsNoOutput_iff, bash_output_eq_nil_iff]
  have hkept : (∀ b ∈ chunks.flatten, b = newlineByte) →
      ∀ b ∈ chunks.flatten.rtake (defaultMaxBytes + 4), b = newlineByte := by
    intro hall b hb
    exact hall b (List.mem_of_mem_drop hb)
  constructor
  · intro htruth
    by_cases hall : ∀ b ∈ chunks.flatten, b = newlineByte
    · have hempty := (shownText_eq_nil_iff chunks.flatten).mpr (hkept hall)
      refine ⟨?_, .inl hall⟩
      rw [hempty]
      exact not_tailTooLong_nil
    · refine ⟨fun hlong => hall (htruth (.inr hlong)), .inr ?_⟩
      by_contra hnone
      push Not at hnone
      exact hall (htruth (.inl hnone))
  · rintro ⟨hfits, hcases⟩ hempty
    rcases hcases with hall | ⟨b, hb, hne⟩
    · exact hall
    · rcases hempty with hnewlines | hlong
      · exact absurd (hnewlines b hb) hne
      · exact absurd hlong hfits

/-! ### One long line -/

theorem decodeReplace_replicate (n : Nat) : decodeReplace (List.replicate n 0x78) = List.replicate n 'x' := by
  induction n with
  | zero => rfl
  | succ n ih =>
    have hsplit := decodeReplace_ascii (b := 0x78) (by decide) [] (List.replicate n 0x78)
    rw [List.nil_append, decodeReplace_nil, List.nil_append] at hsplit
    rw [List.replicate_succ, hsplit, ih]
    rfl

theorem rstripNewlines_replicate (n : Nat) : rstripNewlines (List.replicate n 'x') = List.replicate n 'x' := by
  refine List.rdropWhile_eq_self_iff.mpr fun hne => ?_
  have hlast := List.eq_of_mem_replicate (List.getLast_mem hne)
  rw [hlast]
  decide

/-- One line, longer than the limit. -/
theorem tailTooLong_replicate {n : Nat} (h : defaultMaxBytes < n) : TailTooLong (List.replicate n 'x') := by
  rw [tailTooLong_singleton_iff (splitlines_replicate (Nat.ne_of_gt (Nat.zero_lt_of_lt h))), utf8Size_replicate]
  exact h

theorem rtake_replicate {α : Type} {n k : Nat} (a : α) (h : k ≤ n) :
    (List.replicate n a).rtake k = List.replicate k a := by
  rw [List.rtake, List.drop_replicate, List.length_replicate, Nat.sub_sub_self h]

/-- Nothing is shown of one line that is longer than what is kept. -/
theorem bash_output_replicate {n : Nat} {chunks : List (List UInt8)} (command : List Char) (returncode : Int)
    (fullPath : List Char) (hflat : chunks.flatten = List.replicate n 0x78) (hn : defaultMaxBytes + 4 ≤ n) :
    (bashResult command chunks returncode fullPath).output = [] := by
  rw [bash_output_eq_nil_iff, hflat, shownText, rtake_replicate _ hn, decodeReplace_replicate,
    rstripNewlines_replicate]
  exact .inr (tailTooLong_replicate (Nat.lt_add_of_pos_right (Nat.zero_lt_succ 3)))

/-- A command that prints one line of 57344 bytes: nothing of it is kept, and the tool says `(no output)`. -/
theorem bash_hides_long_line :
    ¬KeepsTail (List.replicate 57344 'x')
      ∧ ¬((bashResult "head -c 57344 /dev/zero | tr '\\0' x".toList (List.replicate 7 (List.replicate 8192 0x78)) 0
          "bash.log".toList).ReportsNoOutput →
        ∀ b ∈ (List.replicate 7 (List.replicate 8192 (0x78 : UInt8))).flatten, b = newlineByte) := by
  have hlong : defaultMaxBytes + 4 ≤ 57344 := by
    rw [defaultMaxBytes]
    omega
  constructor
  · rw [keepsTail_iff, not_not]
    exact tailTooLong_replicate (Nat.lt_of_lt_of_le (Nat.lt_add_of_pos_right (Nat.zero_lt_succ 3)) hlong)
  · intro htruth
    rw [reportsNoOutput_iff, List.flatten_replicate_replicate] at htruth
    have hnewline := htruth (bash_output_replicate _ _ _ List.flatten_replicate_replicate hlong) 0x78
      (List.mem_replicate.mpr ⟨by omega, rfl⟩)
    exact absurd hnewline (by decide)

end AeloonRuntime
