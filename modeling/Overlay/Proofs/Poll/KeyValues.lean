import Mathlib
import Overlay.Poll.KeyValue
import Overlay.Proofs.Text.Pieces

/-!
# What lines of keys and values say

Every text has its lines (`HasLines`), and a line is left out, is at fault, or sets a key
(`line_cases`). A text is refused for the first line at fault, and otherwise a key has the value
of the last line with it (`readLines_eq_error_iff`, `get?_of_readLines`). A line is trimmed as a
whole before it is cut, which makes no difference to its halves (`readLine_of_sets`). So entries
that are written one on each line are read back (`parseKeyValues_grammar`).
-/

namespace Overlay.Poll

open Text (Blank Trimmed trim)

-- ---------------------------------------------------------------------------
-- Lines
-- ---------------------------------------------------------------------------

/-- The lines of a text. A line ends at a line feed, and a carriage return right before it is no
part of the line. What stands behind the last line feed is a line unless it is empty. -/
inductive HasLines : List Char → List (List Char) → Prop
  | empty : HasLines [] []
  | last {line : List Char} : line ≠ [] → '\n' ∉ line → HasLines line [line]
  | feed {line rest : List Char} {later : List (List Char)} :
      '\n' ∉ line → line.getLast? ≠ some '\r' → HasLines rest later →
        HasLines (line ++ '\n' :: rest) (line :: later)
  | returnFeed {line rest : List Char} {later : List (List Char)} :
      '\n' ∉ line → HasLines rest later →
        HasLines (line ++ '\r' :: '\n' :: rest) (line :: later)

section
variable {text line rest : List Char} {found : List (List Char)}

theorem lines_last (hnonempty : line ≠ []) (hline : '\n' ∉ line) : lines line = [line] := by
  obtain ⟨c, others, rfl⟩ := List.exists_cons_of_ne_nil hnonempty
  rw [lines, Text.pieces_singleton, List.splitOn_eq_singleton hline]
  rfl

theorem lines_cons (hline : '\n' ∉ line) (rest : List Char) :
    lines (line ++ '\n' :: rest) =
      (if line.getLast? = some '\r' then line.dropLast else line) :: lines rest := by
  have hpieces : rest.splitOn '\n' ≠ [] := List.splitOn_ne_nil '\n' rest
  have hlast : (line :: rest.splitOn '\n').getLast? = (rest.splitOn '\n').getLast? :=
    List.getLast?_cons_of_ne_nil hpieces
  rw [lines, lines, Text.pieces_singleton, Text.pieces_singleton,
    List.splitOn_append_cons_self_of_not_mem hline]
  simp only [hlast, List.dropLast_cons_of_ne_nil hpieces, List.map_cons]
  split <;> simp_all

theorem HasLines.lines_eq (h : HasLines text found) : lines text = found := by
  induction h with
  | empty => rfl
  | last hnonempty hline => exact lines_last hnonempty hline
  | feed hline hreturn _ ih => rw [lines_cons hline, if_neg hreturn, ih]
  | @returnFeed line rest later hline _ ih =>
    have hfeed : '\n' ∉ line ++ ['\r'] := by simp [hline]
    have hsplit : line ++ '\r' :: '\n' :: rest = (line ++ ['\r']) ++ '\n' :: rest := by simp
    rw [hsplit, lines_cons hfeed, if_pos List.getLast?_concat, List.dropLast_concat, ih]

theorem hasLines_lines (text : List Char) : HasLines text (lines text) := by
  by_cases hfeed : '\n' ∈ text
  · -- the first line is what stands before the first line feed
    obtain ⟨line, rest, htext, hline⟩ := List.eq_append_cons_of_mem hfeed
    have hrest : HasLines rest (lines rest) := hasLines_lines rest
    rw [htext, lines_cons hline]
    split
    · rename_i hreturn
      obtain ⟨before, rfl⟩ := List.getLast?_eq_some_iff.mp hreturn
      rw [List.dropLast_concat, List.append_assoc]
      exact .returnFeed (fun hmem => hline (List.mem_append_left _ hmem)) hrest
    · rename_i hreturn
      exact .feed hline hreturn hrest
  · cases text with
    | nil => exact .empty
    | cons c others =>
      rw [lines_last (List.cons_ne_nil c others) hfeed]
      exact .last (List.cons_ne_nil c others) hfeed
termination_by text.length
decreasing_by
  rw [htext, List.length_append, List.length_cons]
  omega

theorem hasLines_iff : HasLines text found ↔ found = lines text :=
  ⟨fun h => h.lines_eq.symm, fun h => h ▸ hasLines_lines text⟩

end

-- ---------------------------------------------------------------------------
-- What a line says
-- ---------------------------------------------------------------------------

/-- The line is left out: it is blank, or a comment. -/
def Skipped (line : List Char) : Prop := Blank line ∨ (trim line).head? = some '#'

/-- The line should say something and does not. -/
def Faulty (line : List Char) : Prop := ¬ Skipped line ∧ '=' ∉ line

/-- The line sets a key to a value: they are what stands before and behind its first `=`. -/
def Sets (line : List Char) (key value : String) : Prop :=
  ¬ Skipped line ∧ ∃ before after, line = before ++ '=' :: after ∧ '=' ∉ before ∧
    key = String.ofList (trim before) ∧ value = String.ofList (trim after)

section
variable {line : List Char} {key value : String}

theorem readLine_of_skipped (h : Skipped line) : readLine line = some none := by
  unfold readLine
  rcases h with hblank | hcomment
  · rw [Text.trim_eq_nil_iff.mpr hblank]
  · obtain ⟨rest, hrest⟩ := List.head?_eq_some_iff.mp hcomment
    rw [hrest]
    rfl

/-- Of a line that is not left out, the trimmed text is cut. -/
theorem readLine_of_not_skipped (h : ¬ Skipped line) : readLine line =
    (Text.cut '=' (trim line)).map fun halves =>
      some (String.ofList (trim halves.1), String.ofList (trim halves.2)) := by
  unfold readLine
  split
  · rename_i hnil
    exact absurd (.inl (Text.trim_eq_nil_iff.mp hnil)) h
  · rename_i hcomment
    exact absurd (.inr (by rw [hcomment]; rfl)) h
  · rfl

theorem readLine_of_faulty (h : Faulty line) : readLine line = none := by
  have habsent : '=' ∉ trim line := mt (Text.mem_trim_iff (by decide)).mp h.2
  rw [readLine_of_not_skipped h.1, Text.cut_eq_none_iff.mpr habsent]
  rfl

/-- The first `=` of a line is that of its trimmed text, and the halves differ in blanks. -/
theorem readLine_of_sets (h : Sets line key value) : readLine line = some (some (key, value)) := by
  obtain ⟨hskipped, before, after, hline, hbefore, rfl, rfl⟩ := h
  obtain ⟨front, back, hfront, hback, htrim⟩ := Text.exists_blanks line
  have hmem : '=' ∈ trim line := (Text.mem_trim_iff (by decide)).mpr (by simp [hline])
  obtain ⟨first, second, hcut, hfirst⟩ := List.eq_append_cons_of_mem hmem
  have hhalves : before ++ '=' :: after = (front ++ first) ++ '=' :: (second ++ back) := by
    rw [← hline, htrim, hcut]
    simp
  have hfree : '=' ∉ front ++ first := by simp [hfront.not_mem (c := '=') rfl, hfirst]
  have hsame := (Text.cut_eq_some_iff.mpr ⟨rfl, hbefore⟩).symm.trans
    (Text.cut_eq_some_iff.mpr ⟨hhalves, hfree⟩)
  obtain ⟨rfl, rfl⟩ := Prod.mk.inj (Option.some.inj hsame)
  rw [readLine_of_not_skipped hskipped, Text.cut_eq_some_iff.mpr ⟨hcut, hfirst⟩,
    Text.trim_blank_append hfront, Text.trim_append_blank hback]
  rfl

theorem line_cases (line : List Char) :
    Skipped line ∨ Faulty line ∨ ∃ key value, Sets line key value := by
  by_cases hskipped : Skipped line
  · exact .inl hskipped
  · by_cases hmem : '=' ∈ line
    · obtain ⟨before, after, hline, hbefore⟩ := List.eq_append_cons_of_mem hmem
      exact .inr (.inr ⟨_, _, hskipped, before, after, hline, hbefore, rfl, rfl⟩)
    · exact .inr (.inl ⟨hskipped, hmem⟩)

theorem sets_iff : Sets line key value ↔ readLine line = some (some (key, value)) := by
  refine ⟨readLine_of_sets, fun h => ?_⟩
  rcases line_cases line with hskipped | hfaulty | ⟨found, held, hsets⟩
  · rw [readLine_of_skipped hskipped] at h
    exact nomatch h
  · rw [readLine_of_faulty hfaulty] at h
    exact nomatch h
  · rw [readLine_of_sets hsets] at h
    obtain ⟨rfl, rfl⟩ := Prod.mk.inj (Option.some.inj (Option.some.inj h))
    exact hsets

/-- A line sets one key, and to one value. -/
theorem Sets.eq_iff {found held : String} (h : Sets line found held) :
    Sets line key value ↔ key = found ∧ value = held := by
  rw [sets_iff, readLine_of_sets h]
  simp [eq_comm]

end

-- ---------------------------------------------------------------------------
-- What the lines say together
-- ---------------------------------------------------------------------------

/-- The last of the lines with this key sets it to this value. -/
def Latest (lines : List (List Char)) (key value : String) : Prop :=
  ∃ before line after, lines = before ++ line :: after ∧ Sets line key value ∧
    ∀ later ∈ after, ∀ other, ¬ Sets later key other

section
variable {line : List Char} {rest : List (List Char)} {key value : String} {number : Nat}
  {entries result : Entries} {fault : LineFault}

/-- Of a line and more lines the first one counts for a key that the others do not set. -/
theorem latest_cons_iff : Latest (line :: rest) key value ↔
    Latest rest key value ∨ (∀ later ∈ rest, ∀ other, ¬ Sets later key other) ∧
      Sets line key value := by
  constructor
  · rintro ⟨before, last, after, hlines, hsets, hafter⟩
    cases before with
    | nil =>
      obtain ⟨rfl, rfl⟩ := List.cons.inj hlines
      exact .inr ⟨hafter, hsets⟩
    | cons first others =>
      obtain ⟨rfl, rfl⟩ := List.cons.inj hlines
      exact .inl ⟨others, last, after, rfl, hsets, hafter⟩
  · rintro (⟨before, last, after, rfl, hsets, hafter⟩ | ⟨hrest, hsets⟩)
    · exact ⟨line :: before, last, after, rfl, hsets, hafter⟩
    · exact ⟨[], line, rest, rfl, hsets, hrest⟩

theorem readLines_of_skipped (h : Skipped line) :
    readLines number entries (line :: rest) = readLines (number + 1) entries rest := by
  rw [readLines, readLine_of_skipped h]

theorem readLines_of_faulty (h : Faulty line) :
    readLines number entries (line :: rest) = .error ⟨number⟩ := by
  rw [readLines, readLine_of_faulty h]

theorem readLines_of_sets (h : Sets line key value) :
    readLines number entries (line :: rest) =
      readLines (number + 1) (entries.insert key value) rest := by
  rw [readLines, readLine_of_sets h]

theorem Skipped.not_faulty (h : Skipped line) : ¬ Faulty line := fun hfaulty => hfaulty.1 h

theorem Skipped.not_sets (h : Skipped line) : ¬ Sets line key value := fun hsets => hsets.1 h

theorem Sets.not_faulty (h : Sets line key value) : ¬ Faulty line := by
  obtain ⟨-, before, after, rfl, -⟩ := h
  exact fun hfaulty => hfaulty.2 (by simp)

/-- The first line at fault. -/
def FirstFault (lines : List (List Char)) (index : Nat) : Prop :=
  ∃ before line after, lines = before ++ line :: after ∧ before.length = index ∧
    (∀ earlier ∈ before, ¬ Faulty earlier) ∧ Faulty line

theorem firstFault_cons_of_not_faulty (h : ¬ Faulty line) {index : Nat} :
    FirstFault (line :: rest) index ↔ ∃ later, FirstFault rest later ∧ index = later + 1 := by
  constructor
  · rintro ⟨before, last, after, hlines, rfl, hbefore, hlast⟩
    cases before with
    | nil =>
      obtain ⟨rfl, rfl⟩ := List.cons.inj hlines
      exact absurd hlast h
    | cons first others =>
      obtain ⟨rfl, rfl⟩ := List.cons.inj hlines
      exact ⟨_, ⟨others, last, after, rfl, rfl,
        fun earlier hmem => hbefore earlier (List.mem_cons_of_mem _ hmem), hlast⟩, rfl⟩
  · rintro ⟨later, ⟨before, last, after, rfl, rfl, hbefore, hlast⟩, rfl⟩
    refine ⟨line :: before, last, after, rfl, rfl, fun earlier hmem => ?_, hlast⟩
    rcases List.mem_cons.mp hmem with rfl | hmem
    · exact h
    · exact hbefore earlier hmem

theorem exists_firstFault_iff :
    (∃ index, FirstFault rest index) ↔ ∃ line ∈ rest, Faulty line := by
  constructor
  · rintro ⟨index, before, line, after, rfl, -, -, hfaulty⟩
    exact ⟨line, by simp, hfaulty⟩
  · rintro ⟨line, hline, hfaulty⟩
    induction rest with
    | nil => exact absurd hline List.not_mem_nil
    | cons first rest ih =>
      by_cases hfirst : Faulty first
      · exact ⟨0, [], first, rest, rfl, rfl, by simp, hfirst⟩
      · have hrest : line ∈ rest := (List.mem_cons.mp hline).resolve_left
          fun heq => hfirst (heq ▸ hfaulty)
        obtain ⟨index, hindex⟩ := ih hrest
        exact ⟨index + 1, (firstFault_cons_of_not_faulty hfirst).mpr ⟨index, hindex, rfl⟩⟩

theorem readLines_eq_error_iff : readLines number entries rest = .error fault ↔
    ∃ index, FirstFault rest index ∧ fault = ⟨number + index⟩ := by
  induction rest generalizing number entries with
  | nil => simp [readLines, FirstFault]
  | cons line rest ih =>
    have hgoes {entries : Entries} (h : ¬ Faulty line) :
        readLines (number + 1) entries rest = .error fault ↔
          ∃ index, FirstFault (line :: rest) index ∧ fault = ⟨number + index⟩ := by
      rw [ih]
      simp only [firstFault_cons_of_not_faulty h]
      constructor
      · rintro ⟨index, hfirst, rfl⟩
        exact ⟨index + 1, ⟨index, hfirst, rfl⟩, by rw [Nat.add_assoc, Nat.add_comm 1]⟩
      · rintro ⟨_, ⟨index, hfirst, rfl⟩, rfl⟩
        exact ⟨index, hfirst, by rw [Nat.add_assoc, Nat.add_comm 1]⟩
    rcases line_cases line with hskipped | hfaulty | ⟨key, value, hsets⟩
    · rw [readLines_of_skipped hskipped, hgoes hskipped.not_faulty]
    · rw [readLines_of_faulty hfaulty]
      constructor
      · rintro ⟨⟩
        exact ⟨0, ⟨[], line, rest, rfl, rfl, by simp, hfaulty⟩, rfl⟩
      · rintro ⟨index, ⟨before, last, after, hlines, rfl, hbefore, -⟩, rfl⟩
        cases before with
        | nil => rfl
        | cons first others =>
          obtain ⟨rfl, -⟩ := List.cons.inj hlines
          exact absurd hfaulty (hbefore _ List.mem_cons_self)
    · rw [readLines_of_sets hsets, hgoes hsets.not_faulty]

theorem get?_of_readLines (h : readLines number entries rest = .ok result) (key value : String) :
    result.get? key = some value ↔ Latest rest key value ∨
      (∀ line ∈ rest, ∀ other, ¬ Sets line key other) ∧ entries.get? key = some value := by
  induction rest generalizing number entries with
  | nil =>
    obtain rfl := Except.ok.inj h
    simp [Latest]
  | cons line rest ih =>
    rw [latest_cons_iff]
    rcases line_cases line with hskipped | hfaulty | ⟨found, held, hsets⟩
    · rw [readLines_of_skipped hskipped] at h
      rw [ih h]
      simp [hskipped.not_sets]
    · rw [readLines_of_faulty hfaulty] at h
      exact nomatch h
    · rw [readLines_of_sets hsets] at h
      rw [ih h, Entries.get?_insert]
      by_cases hkey : key = found
      · subst hkey
        simp [hsets.eq_iff, eq_comm]
      · simp [hsets.eq_iff, hkey]

end

-- ---------------------------------------------------------------------------
-- Writing
-- ---------------------------------------------------------------------------

/-- A line that sets a key. -/
def keyLine (pair : String × String) : List Char := pair.1.toList ++ '=' :: pair.2.toList

/-- The lines that set these keys, each with a line feed. -/
def written (pairs : List (String × String)) : String :=
  String.ofList (pairs.flatMap fun pair => keyLine pair ++ ['\n'])

/-- A line can hold the key and the value: no part of them is lost or taken for something else. -/
@[mk_iff]
structure Writable (pair : String × String) : Prop where
  key : Trimmed pair.1.toList ∧ '\n' ∉ pair.1.toList
  value : Trimmed pair.2.toList ∧ '\n' ∉ pair.2.toList
  unbroken : '=' ∉ pair.1.toList
  uncommented : pair.1.toList.head? ≠ some '#'

instance (pair : String × String) : Decidable (Writable pair) :=
  decidable_of_iff _ (writable_iff pair).symm

namespace Writable

variable {pair : String × String}

theorem not_mem (h : Writable pair) : '\n' ∉ keyLine pair := by
  simp [keyLine, h.key.2, h.value.2]

theorem trimmed (h : Writable pair) : Trimmed (keyLine pair) := by
  constructor
  · intro c hc
    cases hkey : pair.1.toList with
    | nil =>
      obtain rfl : '=' = c := by simpa [keyLine, hkey] using hc
      rfl
    | cons first others =>
      obtain rfl : first = c := by simpa [keyLine, hkey] using hc
      exact h.key.1.1 first (by rw [hkey]; rfl)
  · intro c hc
    rcases List.eq_nil_or_concat pair.2.toList with hvalue | ⟨others, last, hvalue⟩
    · obtain rfl : '=' = c := by simpa [keyLine, hvalue] using hc
      rfl
    · have hline : keyLine pair = (pair.1.toList ++ '=' :: others) ++ [last] := by
        simp [keyLine, hvalue]
      rw [hline, List.getLast?_concat] at hc
      obtain rfl := Option.some.inj hc
      exact h.value.1.2 last (by simp [hvalue])

theorem sets (h : Writable pair) : Sets (keyLine pair) pair.1 pair.2 := by
  have htrim : trim (keyLine pair) = keyLine pair := Text.trim_of_trimmed h.trimmed
  refine ⟨?_, pair.1.toList, pair.2.toList, rfl, h.unbroken, ?_, ?_⟩
  · rintro (hblank | hcomment)
    · exact absurd (hblank '=' (by simp [keyLine])) (by decide)
    · rw [htrim] at hcomment
      cases hkey : pair.1.toList with
      | nil => simp [keyLine, hkey] at hcomment
      | cons first others =>
        refine h.uncommented ?_
        simpa [keyLine, hkey] using hcomment
  · rw [Text.trim_of_trimmed h.key.1, String.ofList_toList]
  · rw [Text.trim_of_trimmed h.value.1, String.ofList_toList]

/-- Such a line does not end with a carriage return, which is a blank. -/
theorem getLast?_ne (h : Writable pair) : (keyLine pair).getLast? ≠ some '\r' := by
  intro hlast
  exact absurd (h.trimmed.2 '\r' hlast) (by decide)

end Writable

theorem hasLines_written {pairs : List (String × String)} (h : ∀ pair ∈ pairs, Writable pair) :
    HasLines (written pairs).toList (pairs.map keyLine) := by
  rw [written, String.toList_ofList]
  induction pairs with
  | nil => exact .empty
  | cons pair rest ih =>
    have hpair : Writable pair := h pair List.mem_cons_self
    rw [List.flatMap_cons, List.append_assoc, List.singleton_append, List.map_cons]
    exact .feed hpair.not_mem hpair.getLast?_ne
      (ih fun other hother => h other (List.mem_cons_of_mem _ hother))

/-- Of lines that set each key once, each one counts. -/
theorem latest_keyLines_iff {pairs : List (String × String)} (h : ∀ pair ∈ pairs, Writable pair)
    (hkeys : (pairs.map (·.1)).Nodup) {key value : String} :
    Latest (pairs.map keyLine) key value ↔ (key, value) ∈ pairs := by
  induction pairs with
  | nil => simp [Latest]
  | cons pair rest ih =>
    have hpair : Writable pair := h pair List.mem_cons_self
    have hrest : ∀ other ∈ rest, Writable other :=
      fun other hother => h other (List.mem_cons_of_mem _ hother)
    obtain ⟨hnew, hkeys⟩ := List.nodup_cons.mp hkeys
    rw [List.map_cons, latest_cons_iff, ih hrest hkeys, hpair.sets.eq_iff, List.mem_cons, or_comm]
    refine or_congr_left ⟨fun hlast => Prod.ext hlast.2.1 hlast.2.2, ?_⟩
    rintro rfl
    refine ⟨fun line hline other hsets => ?_, rfl, rfl⟩
    obtain ⟨later, hlater, rfl⟩ := List.mem_map.mp hline
    obtain ⟨hkey, -⟩ := (hrest later hlater).sets.eq_iff.mp hsets
    exact hnew (List.mem_map.mpr ⟨later, hlater, hkey.symm⟩)

-- ---------------------------------------------------------------------------
-- Texts
-- ---------------------------------------------------------------------------

section
variable {text : String} {found : List (List Char)} {entries : Entries} {fault : LineFault}

theorem parseKeyValues_eq_error_iff (h : HasLines text.toList found) :
    parseKeyValues text = .error fault ↔
      ∃ index, FirstFault found index ∧ fault.line = index + 1 := by
  rw [parseKeyValues, h.lines_eq, readLines_eq_error_iff]
  simp only [Nat.add_comm 1]
  refine exists_congr fun index => and_congr_right fun _ => ⟨fun heq => heq ▸ rfl, fun heq => ?_⟩
  rw [← heq]

theorem parseKeyValues_fails_iff (h : HasLines text.toList found) :
    (∃ fault, parseKeyValues text = .error fault) ↔ ∃ line ∈ found, Faulty line := by
  rw [← exists_firstFault_iff]
  simp only [parseKeyValues_eq_error_iff h]
  constructor
  · rintro ⟨fault, index, hfirst, -⟩
    exact ⟨index, hfirst⟩
  · rintro ⟨index, hfirst⟩
    exact ⟨⟨index + 1⟩, index, hfirst, rfl⟩

theorem parseKeyValues_eq_ok_iff (h : HasLines text.toList found) :
    parseKeyValues text = .ok entries ↔ (∀ line ∈ found, ¬ Faulty line) ∧
      ∀ key value, entries.get? key = some value ↔ Latest found key value := by
  have hget {result : Entries} (hresult : parseKeyValues text = .ok result) (key value : String) :
      result.get? key = some value ↔ Latest found key value := by
    rw [parseKeyValues, h.lines_eq] at hresult
    simpa using get?_of_readLines hresult key value
  constructor
  · intro hok
    refine ⟨fun line hline hfaulty => ?_, hget hok⟩
    obtain ⟨fault, hfault⟩ := (parseKeyValues_fails_iff h).mpr ⟨line, hline, hfaulty⟩
    exact nomatch hok.symm.trans hfault
  · rintro ⟨hnone, hentries⟩
    cases hparse : parseKeyValues text with
    | error fault =>
      obtain ⟨line, hline, hfaulty⟩ := (parseKeyValues_fails_iff h).mp ⟨fault, hparse⟩
      exact absurd hfaulty (hnone line hline)
    | ok result =>
      have hsame : result = entries := Entries.ext_get? fun key => Option.ext fun value =>
        (hget hparse key value).trans (hentries key value).symm
      rw [hsame]

/-- Lines that set the keys of some entries, in any order. -/
theorem parseKeyValues_of_keyLines {pairs : List (String × String)}
    (hwritable : ∀ pair ∈ entries.toList, Writable pair) (hperm : pairs.Perm entries.toList)
    (h : HasLines text.toList (pairs.map keyLine)) : parseKeyValues text = .ok entries := by
  have hpairs : ∀ pair ∈ pairs, Writable pair := fun pair hpair =>
    hwritable pair (hperm.mem_iff.mp hpair)
  have hkeys : (pairs.map (·.1)).Nodup :=
    (hperm.map _).nodup_iff.mpr (entries.keys_sorted.imp fun hlt => String.ne_of_lt hlt)
  refine (parseKeyValues_eq_ok_iff h).mpr ⟨fun line hline => ?_, fun key value => ?_⟩
  · obtain ⟨pair, hpair, rfl⟩ := List.mem_map.mp hline
    exact (hpairs pair hpair).sets.not_faulty
  · rw [latest_keyLines_iff hpairs hkeys, Entries.get?_eq_some_iff, hperm.mem_iff]

end

/-- A text has one list of lines. It is refused exactly when one of them is at fault, and for the
first of those, whose number counts all lines before it. Otherwise it gives the entries in which
a key has the value of the last line with it. So entries that lines can hold are read back,
in whatever order their lines are and however these end. -/
theorem parseKeyValues_grammar :
    (∀ text : String, ∃ found, HasLines text.toList found ∧
      (∀ other, HasLines text.toList other → other = found) ∧
      ((∃ fault, parseKeyValues text = .error fault) ↔ ∃ line ∈ found, Faulty line) ∧
      (∀ fault, parseKeyValues text = .error fault ↔
        ∃ index, FirstFault found index ∧ fault.line = index + 1) ∧
      ∀ entries, parseKeyValues text = .ok entries ↔ (∀ line ∈ found, ¬ Faulty line) ∧
        ∀ key value, entries.get? key = some value ↔ Latest found key value) ∧
    ∀ entries : Entries, (∀ pair ∈ entries.toList, Writable pair) →
      ∀ pairs : List (String × String), pairs.Perm entries.toList →
        parseKeyValues (written pairs) = .ok entries ∧
        ∀ text : String, HasLines text.toList (pairs.map keyLine) →
          parseKeyValues text = .ok entries := by
  constructor
  · intro text
    have hlines := hasLines_lines text.toList
    exact ⟨lines text.toList, hlines, fun _ hother => hother.lines_eq.symm,
      parseKeyValues_fails_iff hlines, fun _ => parseKeyValues_eq_error_iff hlines,
      fun _ => parseKeyValues_eq_ok_iff hlines⟩
  · intro entries hwritable pairs hperm
    have hpairs : ∀ pair ∈ pairs, Writable pair := fun pair hpair =>
      hwritable pair (hperm.mem_iff.mp hpair)
    exact ⟨parseKeyValues_of_keyLines hwritable hperm (hasLines_written hpairs),
      fun _ => parseKeyValues_of_keyLines hwritable hperm⟩

/-- An empty key, an empty value, and values that look like an entry and a comment. -/
def oddEntries : Entries := .ofPairs [("k", ""), ("a b", "#1"), ("", "x=y")]

/-- The last line of the second text has no line feed. -/
theorem parseKeyValues_grammar_odd :
    (∀ pair ∈ oddEntries.toList, Writable pair) ∧
      parseKeyValues (written [("k", ""), ("", "x=y"), ("a b", "#1")]) = .ok oddEntries ∧
      parseKeyValues "a b=#1\r\nk=\n=x=y" = .ok oddEntries := by
  have hwritable : ∀ pair ∈ oddEntries.toList, Writable pair := by decide
  have hfirst : [("k", ""), ("", "x=y"), ("a b", "#1")].Perm oddEntries.toList := by decide
  have hsecond : [("a b", "#1"), ("k", ""), ("", "x=y")].Perm oddEntries.toList := by decide
  have hlines : HasLines "a b=#1\r\nk=\n=x=y".toList
      ([("a b", "#1"), ("k", ""), ("", "x=y")].map keyLine) :=
    hasLines_iff.mpr (by decide)
  exact ⟨hwritable, (parseKeyValues_grammar.2 oddEntries hwritable _ hfirst).1,
    (parseKeyValues_grammar.2 oddEntries hwritable _ hsecond).2 _ hlines⟩

end Overlay.Poll
