import Obstack.Lib.Buffer
import Obstack.Lib.Text

/-! is_pid_stopped: the State line of /proc/pid/status, looked for piece by piece. The kernel
puts the name of the thread in front of it. -/
namespace Obstack
open CText

def stateTag : Str := ['S', 't', 'a', 't', 'e', ':']

/-- The loop over the pieces that fgets reads: buf where it breaks, if it does. For a piece without
a character the terminator would be written in front of buf. -/
def stateLine : List Str → Option (Option Str)
  | [] => some none
  | piece :: pieces =>
    if cString piece = [] then none
    else
      let buf := (cString piece).dropLast
      if stateTag <+: buf then some (some buf) else stateLine pieces

/-- strstr(buf, "T") != NULL -/
def isPidStopped : Option Str → Option Bool
  | none => some false
  | some status => (stateLine (readLines 100 status)).map fun
    | none => false
    | some buf => decide ('T' ∈ buf)

/-! ## The kernel's side -/

inductive TaskState where
  | running
  | sleeping
  | diskSleep
  | stopped
  | tracingStop
  | dead
  | zombie
  | parked
  | idle
  deriving DecidableEq, Repr

def TaskState.text : TaskState → Str
  | running => ['R', ' ', '(', 'r', 'u', 'n', 'n', 'i', 'n', 'g', ')']
  | sleeping => ['S', ' ', '(', 's', 'l', 'e', 'e', 'p', 'i', 'n', 'g', ')']
  | diskSleep => ['D', ' ', '(', 'd', 'i', 's', 'k', ' ', 's', 'l', 'e', 'e', 'p', ')']
  | stopped => ['T', ' ', '(', 's', 't', 'o', 'p', 'p', 'e', 'd', ')']
  | tracingStop => ['t', ' ', '(', 't', 'r', 'a', 'c', 'i', 'n', 'g', ' ', 's', 't', 'o', 'p', ')']
  | dead => ['X', ' ', '(', 'd', 'e', 'a', 'd', ')']
  | zombie => ['Z', ' ', '(', 'z', 'o', 'm', 'b', 'i', 'e', ')']
  | parked => ['P', ' ', '(', 'p', 'a', 'r', 'k', 'e', 'd', ')']
  | idle => ['I', ' ', '(', 'i', 'd', 'l', 'e', ')']

/-- A newline and a backslash of the name are escaped. -/
def escapeName (comm : Str) : Str :=
  comm.flatMap fun c => if c = '\n' then ['\\', 'n'] else if c = '\\' then ['\\', '\\'] else [c]

/-- The file of a thread, with the umask where there is one; rest is all that follows. -/
structure ThreadStatus where
  comm : Str
  umask : Option Str
  state : TaskState
  rest : Str
  named : comm.length ≤ 15 ∧ nul ∉ comm
  octal : ∀ digits ∈ umask, digits.length ≤ 4 ∧ ∀ c ∈ digits, isDigitOf 8 c = true

namespace ThreadStatus

variable (s : ThreadStatus)

def nameText : Str := ['N', 'a', 'm', 'e', ':', '\t'] ++ escapeName s.comm

def umaskText (digits : Str) : Str := ['U', 'm', 'a', 's', 'k', ':', '\t'] ++ digits

def stateText : Str := ['S', 't', 'a', 't', 'e', ':', '\t'] ++ s.state.text

/-- The lines down to the State line. -/
def head : List Str := s.nameText :: (s.umask.map umaskText).toList ++ [s.stateText]

def file : Str := s.head.flatMap (fun text => text ++ ['\n']) ++ s.rest

end ThreadStatus

/-! ## Line by line -/

theorem readLines_head {line : Str} (isLine : IsLine line) (short : line.length < 100)
    (rest : Str) :
    readLines 100 (line ++ rest) = line :: readLines 100 rest := by
  obtain ⟨body, rfl, plain⟩ := isLine
  have whole : readLines 100 (body ++ ['\n']) = [body ++ ['\n']] :=
    readLines_fits ⟨body, rfl, plain⟩ short
  rw [List.append_assoc, List.singleton_append, readLines_line (by omega) body rest plain, whole]
  rfl

theorem cString_plain {text : Str} (plain : nul ∉ text) : cString text = text := by
  rw [cString, List.takeWhile_eq_self_iff]
  intro c member
  simpa using fun same : c = nul => plain (same ▸ member)

theorem stateLine_line {body : Str} (plain : nul ∉ body) (pieces : List Str) :
    stateLine ((body ++ ['\n']) :: pieces) =
      if stateTag <+: body then some (some body) else stateLine pieces := by
  have text : cString (body ++ ['\n']) = body ++ ['\n'] := by
    apply cString_plain
    rw [List.mem_append, not_or]
    exact ⟨plain, by decide⟩
  rw [stateLine, text, List.dropLast_concat]
  simp

/-- Pieces and lines agree as far as the lines are short. -/
theorem stateLine_lines {texts : List Str}
    (short : ∀ text ∈ texts, text.length < 99 ∧ '\n' ∉ text ∧ nul ∉ text) (rest : Str)
    (tagged : ∃ text ∈ texts, stateTag <+: text) :
    stateLine (readLines 100 (texts.flatMap (fun text => text ++ ['\n']) ++ rest)) =
      some (texts.find? (fun text => stateTag <+: text)) := by
  induction texts with
  | nil => simp at tagged
  | cons text texts ih =>
    obtain ⟨⟨fits, oneLine, plain⟩, later⟩ := List.forall_mem_cons.mp short
    have isLine : IsLine (text ++ ['\n']) := ⟨text, rfl, oneLine⟩
    rw [List.flatMap_cons, List.append_assoc, readLines_head isLine (by simp; omega),
      stateLine_line plain, List.find?_cons]
    by_cases here : stateTag <+: text
    · simp [here]
    · simp only [here, if_false, decide_false]
      obtain ⟨other, member, tag⟩ := tagged
      rcases List.mem_cons.mp member with rfl | member
      · exact absurd tag here
      · exact ih later ⟨other, member, tag⟩

theorem mem_escapeName {comm : Str} {c : Char} (member : c ∈ escapeName comm) :
    c = '\\' ∨ c = 'n' ∨ c ∈ comm ∧ c ≠ '\n' := by
  rw [escapeName, List.mem_flatMap] at member
  obtain ⟨d, inside, escaped⟩ := member
  by_cases newline : d = '\n'
  · rw [if_pos newline] at escaped
    simp only [List.mem_cons, List.not_mem_nil, or_false] at escaped
    exact escaped.imp_right Or.inl
  · rw [if_neg newline] at escaped
    split at escaped
    · simp only [List.mem_cons, List.not_mem_nil, or_self, or_false] at escaped
      exact Or.inl escaped
    · obtain rfl := List.mem_singleton.mp escaped
      exact Or.inr (Or.inr ⟨inside, newline⟩)

theorem escapeName_length (comm : Str) : (escapeName comm).length ≤ 2 * comm.length := by
  induction comm with
  | nil => exact Nat.le_refl 0
  | cons c comm ih =>
    have longest : (if c = '\n' then ['\\', 'n'] else if c = '\\' then ['\\', '\\'] else [c]).length
        ≤ 2 := by
      split
      · exact Nat.le_refl 2
      · split <;> simp
    rw [escapeName, List.flatMap_cons, List.length_append, List.length_cons]
    rw [escapeName] at ih
    omega

namespace ThreadStatus

variable (s : ThreadStatus)

theorem nameText_short : s.nameText.length < 99 ∧ '\n' ∉ s.nameText ∧ nul ∉ s.nameText := by
  have length := escapeName_length s.comm
  have bound := s.named.1
  refine ⟨?_, ?_, ?_⟩
  · rw [nameText, List.length_append]
    simp only [List.length_cons, List.length_nil]
    omega
  · rw [nameText, List.mem_append, not_or]
    refine ⟨by decide, fun member => ?_⟩
    rcases mem_escapeName member with wrong | wrong | ⟨_, wrong⟩
    · exact absurd wrong (by decide)
    · exact absurd wrong (by decide)
    · exact wrong rfl
  · rw [nameText, List.mem_append, not_or]
    refine ⟨by decide, fun member => ?_⟩
    rcases mem_escapeName member with wrong | wrong | ⟨inside, _⟩
    · exact absurd wrong (by decide)
    · exact absurd wrong (by decide)
    · exact s.named.2 inside

theorem umaskText_short {digits : Str} (given : digits ∈ s.umask) :
    (umaskText digits).length < 99 ∧ '\n' ∉ umaskText digits ∧ nul ∉ umaskText digits := by
  obtain ⟨few, octal⟩ := s.octal digits given
  have other {c : Char} (no : isDigitOf 8 c = false) : c ∉ digits := fun member =>
    Bool.noConfusion ((octal c member).symm.trans no)
  refine ⟨?_, ?_, ?_⟩
  · rw [umaskText, List.length_append]
    simp only [List.length_cons, List.length_nil]
    omega
  · rw [umaskText, List.mem_append, not_or]
    exact ⟨by decide, other (by decide)⟩
  · rw [umaskText, List.mem_append, not_or]
    exact ⟨by decide, other (by decide)⟩

theorem stateText_short : s.stateText.length < 99 ∧ '\n' ∉ s.stateText ∧ nul ∉ s.stateText := by
  rw [stateText]
  cases s.state <;> decide

theorem head_short : ∀ text ∈ s.head, text.length < 99 ∧ '\n' ∉ text ∧ nul ∉ text := by
  intro text member
  rw [head, List.mem_append, List.mem_cons, List.mem_singleton, Option.mem_toList] at member
  rcases member with (rfl | umask) | rfl
  · exact s.nameText_short
  · obtain ⟨digits, given, rfl⟩ := Option.map_eq_some_iff.mp umask
    exact s.umaskText_short given
  · exact s.stateText_short

theorem head_state : s.head.find? (fun text => stateTag <+: text) = some s.stateText := by
  have name : decide (stateTag <+: s.nameText) = false := by
    simp [stateTag, nameText]
  have umask (digits : Str) : decide (stateTag <+: umaskText digits) = false := by
    simp [stateTag, umaskText]
  have state : decide (stateTag <+: s.stateText) = true := by
    simp [stateTag, stateText]
  rw [head, List.cons_append, List.find?_cons, name]
  cases s.umask with
  | none => simp [state]
  | some digits => simp [umask, state]

end ThreadStatus

/-- The warning tells of a stopped thread whatever the thread calls itself; a thread in a tracing
stop is none. -/
theorem isPidStopped_state (s : ThreadStatus) :
    isPidStopped (some s.file) = some (decide (s.state = .stopped)) := by
  have tagged : ∃ text ∈ s.head, stateTag <+: text :=
    ⟨s.stateText, by simp [ThreadStatus.head], by simp [stateTag, ThreadStatus.stateText]⟩
  rw [isPidStopped, ThreadStatus.file, stateLine_lines s.head_short s.rest tagged, s.head_state]
  simp only [Option.map_some, ThreadStatus.stateText, Option.some.injEq]
  cases s.state <;> decide

/-- A sleeping thread that calls itself a stopped one. -/
def boaster : ThreadStatus where
  comm := ['\n', 'S', 't', 'a', 't', 'e', ':', '\t', 'T']
  umask := none
  state := .sleeping
  rest := []
  named := by decide
  octal := by simp

example : isPidStopped (some boaster.file) = some false := by decide

end Obstack
