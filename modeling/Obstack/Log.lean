import Obstack.Clock
import Obstack.Lib.Buffer

/-! common::log_data: a line is rendered into tl_log_buf, ended by force, and printed with the
length that snprintf reports as its precision. -/
namespace Obstack
open CText

inductive LogLevel where
  | DEBUG
  | INFO
  | WARN
  | ERROR
  deriving DecidableEq, Repr

def LogLevel.text : LogLevel → Str
  | .DEBUG => ['D', 'E', 'B', 'U', 'G']
  | .INFO => ['I', 'N', 'F', 'O']
  | .WARN => ['W', 'A', 'R', 'N']
  | .ERROR => ['E', 'R', 'R', 'O', 'R']

/-- What LOG passes on; message is fmt with its arguments. -/
structure LogCall where
  logLevel : LogLevel
  function : Str
  filename : Str
  line : Int
  message : Str

/-- What log_data asks the system for, and the struct tm that localtime makes of it. -/
structure LogTime where
  timezone : Int
  tvSec : Int
  tvUsec : Int
  tid : Int
  uninit : Tm
  tm : Tm
  converted : localtime timezone (some tvSec) (some uninit) = some (some tm)

/-- sizeof(tl_log_buf) -/
def logBufSize : Nat := 1024

/-- tl_log_buf as earlier lines have left it, and the memory behind it. -/
structure LogMemory where
  buf : Str
  behind : Str
  size : buf.length = logBufSize

/-- %0nd and %0nld; n is 0 without a width. -/
def decimal (width : Nat) (n : Int) : Str :=
  if n < 0 then '-' :: (dec n.natAbs).leftpad (width - 1) '0' else (dec n.natAbs).leftpad width '0'

/-- "[%04d-%02d-%02d %02d:%02d:%02d.%06ld] %s [%s@%s:%d] [%ld] " -/
def fmtBegin (t : LogTime) (call : LogCall) : Str :=
  ['['] ++ decimal 4 (t.tm.tmYear + 1900) ++ ['-'] ++ decimal 2 (t.tm.tmMon + 1) ++ ['-'] ++
    decimal 2 t.tm.tmMday ++ [' '] ++ decimal 2 t.tm.tmHour ++ [':'] ++ decimal 2 t.tm.tmMin ++
    [':'] ++ decimal 2 t.tm.tmSec ++ ['.'] ++ decimal 6 t.tvUsec ++ [']', ' '] ++
    call.logLevel.text ++ [' ', '['] ++ call.function ++ ['@'] ++ call.filename ++ [':'] ++
    decimal 0 call.line ++ [']', ' ', '['] ++ decimal 0 t.tid ++ [']', ' ']

/-- FMT(fmt) with all arguments. -/
def logLine (t : LogTime) (call : LogCall) : Str := fmtBegin t call ++ call.message ++ ['\n']

/-- What snprintf returns for a text of this length: an int, or -1 where none can hold it. -/
def reported (length : Nat) : Int := if length < 2 ^ 31 then length else -1

/-- The %s part of %.*s: the bytes printed and how many are read; none where memory ends first. -/
def printString : Nat → Str → Option (Str × Nat)
  | 0, _ => some ([], 0)
  | _ + 1, [] => none
  | precision + 1, c :: mem =>
    if c = nul then some ([], 1)
    else (printString precision mem).map (fun r => (c :: r.1, r.2 + 1))

/-- The .* part: a negative precision is taken as if it were left out. -/
def precisionOf (arg : Int) (mem : Str) : Nat := if arg < 0 then mem.length + 1 else arg.toNat

/-- log_len, memory from tl_log_buf on, what fprintf prints and how many bytes it reads. -/
structure Logged where
  logLen : Int
  mem : Str
  printed : Str
  reads : Nat

def logData (t : LogTime) (call : LogCall) (m : LogMemory) : Option Logged :=
  let (mem, length) := snprintf (m.buf ++ m.behind) 0 logBufSize (logLine t call)
  let logLen := reported length
  let mem := poke mem (logBufSize - 1) ['\n']
  (printString (precisionOf logLen mem) mem).map (fun r =>
    { logLen, mem, printed := r.1, reads := r.2 })

/-- What is printed is the start of the buffer, nothing behind it is read, and the line ends. -/
structure LineRight (r : Logged) : Prop where
  printed : r.printed = (r.mem.take logBufSize).take (min r.logLen logBufSize).toNat
  inside : r.reads ≤ logBufSize
  ended : r.printed.getLast? = some '\n'

/-! ## Printing a string -/

theorem printString_whole {text : Str} (plain : nul ∉ text) (rest : Str) :
    printString text.length (text ++ rest) = some (text, text.length) := by
  induction text with
  | nil => rfl
  | cons c text ih =>
    rw [List.mem_cons, not_or] at plain
    rw [List.length_cons, List.cons_append, printString, if_neg (Ne.symm plain.1), ih plain.2]
    rfl

/-- A NUL is never printed, and a string that stops short of the precision has read one. -/
theorem printString_bounds {precision : Nat} {mem : Str} {r : Str × Nat}
    (ran : printString precision mem = some r) :
    nul ∉ r.1 ∧ (r.1.length < precision → r.2 = r.1.length + 1) := by
  induction precision generalizing mem r with
  | zero =>
    obtain rfl := Option.some.inj ran
    exact ⟨List.not_mem_nil, fun short => absurd short (Nat.not_lt_zero _)⟩
  | succ precision ih =>
    cases mem with
    | nil => cases ran
    | cons c mem =>
      rw [printString] at ran
      split at ran
      · obtain rfl := Option.some.inj ran
        exact ⟨List.not_mem_nil, fun _ => rfl⟩
      · rename_i other
        obtain ⟨r', rest, rfl⟩ := Option.map_eq_some_iff.mp ran
        obtain ⟨plain, short⟩ := ih rest
        refine ⟨?_, fun less => ?_⟩
        · rw [List.mem_cons, not_or]
          exact ⟨Ne.symm other, plain⟩
        · rw [List.length_cons] at less ⊢
          exact congrArg (· + 1) (short (Nat.lt_of_succ_lt_succ less))

/-! ## The buffer -/

section Buffer

variable (t : LogTime) (call : LogCall) (m : LogMemory)

/-- The memory that fprintf is called on. -/
def logMemory : Str :=
  poke (snprintf (m.buf ++ m.behind) 0 logBufSize (logLine t call)).1 (logBufSize - 1) ['\n']

theorem logData_map : logData t call m =
    (printString (precisionOf (reported (logLine t call).length) (logMemory t call m))
      (logMemory t call m)).map (fun r =>
      { logLen := reported (logLine t call).length, mem := logMemory t call m, printed := r.1,
        reads := r.2 }) := by
  simp only [logData, snprintf_wanted, logMemory]

theorem precisionOf_reported {length : Nat} (fits : length < 2 ^ 31) (mem : Str) :
    precisionOf (reported length) mem = length := by
  rw [reported, if_pos fits, precisionOf, if_neg (by omega), Int.toNat_natCast]

theorem logData_eq (fits : (logLine t call).length < 2 ^ 31) : logData t call m =
    (printString (logLine t call).length (logMemory t call m)).map (fun r =>
      { logLen := (logLine t call).length, mem := logMemory t call m, printed := r.1,
        reads := r.2 }) := by
  rw [logData_map, precisionOf_reported fits, reported, if_pos fits]

/-- The rendered text, cut and terminated, with a newline in the last place. -/
theorem logMemory_eq : ∃ stale rest, logMemory t call m =
    ((logLine t call).take 1023 ++ nul :: stale).take 1023 ++ '\n' :: rest ∧
      1023 ≤ ((logLine t call).take 1023 ++ nul :: stale).length := by
  have room : 1024 ≤ (m.buf ++ m.behind).length := by
    have size := m.size
    rw [logBufSize] at size
    rw [List.length_append]
    omega
  have rendered : (snprintf (m.buf ++ m.behind) 0 logBufSize (logLine t call)).1 =
      (logLine t call).take 1023 ++ nul ::
        (m.buf ++ m.behind).drop (((logLine t call).take 1023).length + 1) := by
    simp [snprintf, logBufSize, poke]
  refine ⟨_, _, by rw [logMemory, rendered]; rfl, ?_⟩
  simp only [List.length_append, List.length_cons, List.length_drop, List.length_take]
  rw [List.length_append] at room
  omega

theorem logMemory_length : 1024 ≤ (logMemory t call m).length := by
  obtain ⟨stale, rest, memory, long⟩ := logMemory_eq t call m
  rw [memory, List.length_append, List.length_take, List.length_cons]
  omega

theorem logMemory_take {k : Nat} (text : k ≤ (logLine t call).length) (small : k ≤ 1023) :
    (logMemory t call m).take k = (logLine t call).take k := by
  obtain ⟨stale, rest, memory, long⟩ := logMemory_eq t call m
  have cut : k ≤ ((logLine t call).take 1023).length := by
    rw [List.length_take]
    omega
  rw [memory, List.take_append_of_le_length (by rw [List.length_take]; omega), List.take_take,
    Nat.min_eq_left small, List.take_append_of_le_length cut, List.take_take, Nat.min_eq_left small]

/-- A line that fits is at the start of memory, its last newline in place of the terminator when
it fills the buffer. -/
theorem logMemory_fits (fits : (logLine t call).length ≤ 1024) :
    ∃ rest, logMemory t call m = logLine t call ++ rest := by
  obtain ⟨stale, rest, memory, long⟩ := logMemory_eq t call m
  rcases Nat.lt_or_eq_of_le fits with less | full
  · have whole : (logLine t call).take 1023 = logLine t call := List.take_of_length_le (by omega)
    have start : ((logLine t call) ++ nul :: stale).take 1023 =
        logLine t call ++ (nul :: stale).take (1023 - (logLine t call).length) := by
      rw [List.take_append, List.take_of_length_le (by omega)]
    exact ⟨(nul :: stale).take (1023 - (logLine t call).length) ++ '\n' :: rest, by
      rw [memory, whole, start, List.append_assoc]⟩
  · have front : (fmtBegin t call ++ call.message).length = 1023 := by
      rw [logLine, List.length_append, List.length_singleton] at full
      omega
    have body : (logLine t call).take 1023 = fmtBegin t call ++ call.message := by
      rw [logLine, List.take_append_of_le_length (by omega), List.take_of_length_le (by omega)]
    refine ⟨rest, ?_⟩
    rw [memory, body, List.take_append_of_le_length (by omega), List.take_of_length_le (by omega),
      logLine]
    simp

end Buffer

/-! ## The line -/

theorem lineRight_of_fits {t : LogTime} {call : LogCall} (m : LogMemory)
    (fits : (logLine t call).length ≤ 1024) (plain : nul ∉ logLine t call) :
    ∃ r, logData t call m = some r ∧ LineRight r := by
  obtain ⟨rest, memory⟩ := logMemory_fits t call m fits
  have string : printString (logLine t call).length (logMemory t call m) =
      some (logLine t call, (logLine t call).length) := by
    rw [memory]
    exact printString_whole plain rest
  refine ⟨{ logLen := (logLine t call).length, mem := logMemory t call m,
            printed := logLine t call, reads := (logLine t call).length }, ?_, ?_⟩
  · rw [logData_eq t call m (by omega), string, Option.map_some]
  · constructor
    case printed =>
      have precision : (min ((logLine t call).length : Int) logBufSize).toNat =
          (logLine t call).length := by
        rw [logBufSize]
        omega
      simp only [precision]
      rw [logBufSize, List.take_take, Nat.min_eq_left fits, memory, List.take_left]
    case inside =>
      simp only [logBufSize]
      exact fits
    case ended =>
      simp only [logLine]
      exact List.getLast?_concat

/-- Where snprintf reports no length, nothing is what the line would have to be. -/
theorem reported_of_lineRight {t : LogTime} {call : LogCall} {m : LogMemory} {r : Logged}
    (ran : logData t call m = some r) (right : LineRight r) :
    (logLine t call).length < 2 ^ 31 := by
  by_contra long
  have failed : reported (logLine t call).length = -1 := by
    rw [reported, if_neg long]
  rw [logData_map, failed] at ran
  obtain ⟨r', _, rfl⟩ := Option.map_eq_some_iff.mp ran
  obtain ⟨printed, _, ended⟩ := right
  rw [printed] at ended
  cases ended

/-- What was printed is the start of memory, as long as the line but no longer than the buffer. -/
theorem printed_of_lineRight {t : LogTime} {call : LogCall} {m : LogMemory} {r : Logged}
    (ran : logData t call m = some r) (right : LineRight r) :
    r.printed = (logMemory t call m).take (min (logLine t call).length 1024) := by
  have printed := right.printed
  rw [logData_eq t call m (reported_of_lineRight ran right)] at ran
  obtain ⟨r', _, rfl⟩ := Option.map_eq_some_iff.mp ran
  have precision : (min ((logLine t call).length : Int) logBufSize).toNat =
      min (logLine t call).length 1024 := by
    rw [logBufSize]
    omega
  simp only [precision] at printed
  rw [logBufSize, List.take_take, Nat.min_eq_left (Nat.min_le_right _ _)] at printed
  exact printed

theorem fits_of_lineRight {t : LogTime} {call : LogCall} {m : LogMemory} {r : Logged}
    (ran : logData t call m = some r) (right : LineRight r) :
    (logLine t call).length ≤ 1024 ∧ nul ∉ logLine t call := by
  have start := printed_of_lineRight ran right
  have inside := right.inside
  have length := logMemory_length t call m
  rw [logData_eq t call m (reported_of_lineRight ran right)] at ran
  obtain ⟨r', string, rfl⟩ := Option.map_eq_some_iff.mp ran
  obtain ⟨plain, short⟩ := printString_bounds string
  simp only [logBufSize] at start inside
  have size : r'.1.length = min (logLine t call).length 1024 := by
    rw [start, List.length_take]
    omega
  -- the precision was not reached, so a NUL behind the buffer would have been read
  have fits : (logLine t call).length ≤ 1024 := by
    by_contra long
    have read := short (by omega)
    omega
  refine ⟨fits, ?_⟩
  have front : (fmtBegin t call ++ call.message).length ≤ 1023 := by
    rw [logLine, List.length_append, List.length_singleton] at fits
    omega
  have longer : (logLine t call).length = (fmtBegin t call ++ call.message).length + 1 :=
    List.length_append
  have kept : (logMemory t call m).take (fmtBegin t call ++ call.message).length =
      fmtBegin t call ++ call.message := by
    rw [logMemory_take t call m (by omega) front, logLine, List.take_left]
  intro member
  rcases List.mem_append.mp member with earlier | newline
  · apply plain
    rw [start]
    have short : (fmtBegin t call ++ call.message).length ≤ min (logLine t call).length 1024 := by
      omega
    apply List.take_subset_take_left (logMemory t call m) short
    rw [kept]
    exact earlier
  · exact absurd (List.mem_singleton.mp newline) (by decide)

/-- A line is printed right exactly when it fits the buffer and has no NUL in it. -/
theorem log_line_iff (t : LogTime) (call : LogCall) (m : LogMemory) :
    (∃ r, logData t call m = some r ∧ LineRight r) ↔
      (logLine t call).length ≤ 1024 ∧ nul ∉ logLine t call := by
  constructor
  · rintro ⟨r, ran, right⟩
    exact fits_of_lineRight ran right
  · rintro ⟨fits, plain⟩
    exact lineRight_of_fits m fits plain

/-- The line of get_options for -s. -/
def symbolPathCall (path : Str) : LogCall where
  logLevel := .INFO
  function := ['g', 'e', 't', '_', 'o', 'p', 't', 'i', 'o', 'n', 's']
  filename := ['m', 'a', 'i', 'n', '.', 'c', 'p', 'p']
  line := 104
  message := ['i', 'n', 'p', 'u', 't', ' ', 's', 'y', 'm', 'b', 'o', 'l', ' ', 'p', 'a', 't', 'h',
    ':', ' '] ++ path

def firstSecond : LogTime where
  timezone := 0
  tvSec := 1
  tvUsec := 0
  tid := 7
  uninit := { tmSec := 0, tmMin := 0, tmHour := 0, tmMday := 0, tmMon := 0, tmYear := 0 }
  tm := { tmSec := 1, tmMin := 0, tmHour := 0, tmMday := 1, tmMon := 0, tmYear := 70 }
  converted := by decide

def freshMemory : LogMemory where
  buf := List.replicate 1024 nul
  behind := List.replicate 4096 'z'
  size := List.length_replicate

/-- A long -s path is printed with what stands behind the buffer. -/
theorem long_path_overrun :
    ¬ ∃ r, logData firstSecond (symbolPathCall (List.replicate 2000 'a')) freshMemory = some r ∧
      LineRight r := by
  rintro ⟨r, ran, right⟩
  have fits := (fits_of_lineRight ran right).1
  have path : (List.replicate 2000 'a').length = 2000 := List.length_replicate
  simp only [logLine, symbolPathCall, List.length_append, path] at fits
  omega

end Obstack
