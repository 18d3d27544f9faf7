import GoSyntax.CommandLine
import GoSyntax.Proofs.TwoRuns.Reports

/-!
# The commands side by side

The commands read a file in two ways: one takes its tokens and stops, the others parse it. They cannot disagree about it. The line
that `check` gives to a file is an `ok` or two counts, and the counts can be read off the line; with them one knows how the other
commands end on that file, since the lexical diagnostics of a parse are those of its tokens. Many files are checked one after the
other and share nothing, so what is said of one holds in any company.
-/

namespace GoSyntax

/-! ## Summaries -/

/-- A number in front of what is no digit can be told from what is behind it. -/
theorem digits_append_inj {m n : Nat} {a b : List Char} (ha : ∀ c ∈ a.head?, c.isDigit = false)
    (hb : ∀ c ∈ b.head?, c.isDigit = false) (h : (toString m).toList ++ a = (toString n).toList ++ b) : m = n ∧ a = b := by
  have hdigits : ∀ k : Nat, (toString k).toList = Nat.toDigits 10 k := fun k => by
    rw [Nat.toString_eq_ofList_toDigits, String.toList_ofList]
  have htake : ∀ (k : Nat) {cs : List Char}, (∀ c ∈ cs.head?, c.isDigit = false) →
      (Nat.toDigits 10 k ++ cs).takeWhile Char.isDigit = Nat.toDigits 10 k := by
    intro k cs hcs
    rw [List.takeWhile_append_of_pos fun c hc => Nat.isDigit_of_mem_toDigits (by decide) (by decide) hc]
    cases cs with
    | nil => exact List.append_nil _
    | cons c cs => rw [List.takeWhile_cons_of_neg (by simp [hcs c rfl]), List.append_nil]
  rw [hdigits, hdigits] at h
  have hfront : Nat.toDigits 10 m = Nat.toDigits 10 n := by rw [← htake m ha, h, htake n hb]
  have hsame := congrArg (Nat.ofDigitChars 10 · 0) hfront
  rw [Nat.ofDigitChars_ten_toDigits, Nat.ofDigitChars_ten_toDigits] at hsame
  rw [hfront] at h
  exact ⟨hsame, List.append_cancel_left h⟩

namespace Parsed

/-- The line that counts so many lexical and so many syntactic diagnostics. -/
def countLine (path : String) (lexical syntactic : Nat) : String :=
  path ++ ": " ++ toString (lexical + syntactic) ++ " " ++ (if lexical + syntactic = 1 then "diagnostic" else "diagnostics")
    ++ " (" ++ toString lexical ++ " lexical, " ++ toString syntactic ++ " syntactic)"

/-- The counts can be read off the line: no digit stands behind one. -/
theorem countLine_inj {path : String} {l s l' s' : Nat} (h : countLine path l s = countLine path l' s') : l = l' ∧ s = s' := by
  have h := congrArg String.toList h
  simp only [countLine, String.toList_append, List.append_assoc, List.append_cancel_left_eq] at h
  obtain ⟨htotal, h⟩ := digits_append_inj (by simp) (by simp) h
  -- The totals are the same, so the same noun follows.
  rw [htotal] at h
  simp only [List.append_cancel_left_eq] at h
  obtain ⟨hlexical, h⟩ := digits_append_inj (by simp) (by simp) h
  exact ⟨hlexical, by omega⟩

theorem ok_ne_countLine (path : String) (l s : Nat) : path ++ ": ok" ≠ countLine path l s := by
  intro h
  have h := congrArg String.toList h
  simp only [countLine, String.toList_append, List.append_assoc, List.append_cancel_left_eq] at h
  rw [Nat.toString_eq_ofList_toDigits, String.toList_ofList] at h
  cases hdigits : Nat.toDigits 10 (l + s) with
  | nil => exact Nat.toDigits_ne_nil hdigits
  | cons c cs =>
    have hc : c.isDigit = true := Nat.isDigit_of_mem_toDigits (by decide) (by decide) (hdigits ▸ List.mem_cons_self)
    rw [hdigits] at h
    have ho : c = 'o' := by
      simp at h
      exact h.1.symm
    exact absurd (ho ▸ hc) (by decide)

variable {α : Type} (r : Parsed α) (path : String)

/-- The number of syntactic diagnostics. -/
def syntacticCount : Nat := r.diagnostics.countP fun d => !d.isLexical

theorem lexicalCount_add_syntacticCount : r.lexicalCount + r.syntacticCount = r.diagnostics.length := by
  simpa [lexicalCount, syntacticCount] using (List.length_eq_countP_add_countP Diagnostic.isLexical (l := r.diagnostics)).symm

theorem summary_of_clean (h : r.diagnostics = []) : r.summary path = path ++ ": ok" := by
  simp [summary, h]

theorem summary_of_reported (h : r.diagnostics ≠ []) : r.summary path = countLine path r.lexicalCount r.syntacticCount := by
  have htotal := r.lexicalCount_add_syntacticCount
  have hrest : r.diagnostics.length - r.lexicalCount = r.syntacticCount := by omega
  simp only [summary, countLine, htotal, hrest, if_neg (mt List.length_eq_zero_iff.1 h)]

theorem summary_eq_ok_iff : r.summary path = path ++ ": ok" ↔ r.diagnostics = [] := by
  refine ⟨fun h => Decidable.byContradiction fun hreported => ?_, r.summary_of_clean path⟩
  rw [r.summary_of_reported path hreported] at h
  exact ok_ne_countLine path _ _ h.symm

theorem summary_eq_countLine_iff {l s : Nat} :
    r.summary path = countLine path l s ↔ r.diagnostics ≠ [] ∧ l = r.lexicalCount ∧ s = r.syntacticCount := by
  constructor
  · intro h
    have hreported : r.diagnostics ≠ [] := fun hclean => ok_ne_countLine path l s (r.summary_of_clean path hclean ▸ h)
    rw [r.summary_of_reported path hreported] at h
    obtain ⟨hl, hs⟩ := countLine_inj h
    exact ⟨hreported, hl.symm, hs.symm⟩
  · rintro ⟨hreported, rfl, rfl⟩
    exact r.summary_of_reported path hreported

theorem summary_cases : r.summary path = path ++ ": ok" ∧ r.diagnostics.length = 0
    ∨ ∃ lexical syntactic, r.summary path = countLine path lexical syntactic := by
  by_cases h : r.diagnostics = []
  · exact .inl ⟨r.summary_of_clean path h, by rw [h]; rfl⟩
  · exact .inr ⟨_, _, r.summary_of_reported path h⟩

theorem lexicalCount_eq_zero_iff : r.lexicalCount = 0 ↔
    r.summary path = path ++ ": ok" ∨ ∃ syntactic, r.summary path = countLine path 0 syntactic := by
  simp only [summary_eq_ok_iff, summary_eq_countLine_iff]
  constructor
  · intro h
    by_cases hclean : r.diagnostics = []
    · exact .inl hclean
    · exact .inr ⟨_, hclean, h.symm, rfl⟩
  · rintro (hclean | ⟨_, -, hzero, -⟩)
    · rw [lexicalCount, hclean, List.countP_nil]
    · exact hzero.symm

end Parsed

namespace Command

variable (opener : Opener)

/-! ## One file -/

/-- What a parse makes of the results of reading a path. -/
abbrev parsed (path : String) (reads : List ReadResult) : Parsed SourceFile := parseFile (handle path) (ReadResult.content reads)

theorem status_eq_zero_iff (clean : Bool) : status clean = 0 ↔ clean = true := by
  cases clean <;> decide

theorem status_le_one (clean : Bool) : status clean ≤ 1 := by
  cases clean <;> decide

section
variable {opener} {path : String} {reads : List ReadResult} (h : opener path = .ok reads)
include h

theorem withFile_of_ok (go : List UInt8 → Outcome) : withFile opener path go = go (ReadResult.content reads) := by
  rw [withFile, h]

theorem status_parse (quiet : Bool) : (run opener (.parse path quiet)).status = 0 ↔ (parsed path reads).diagnostics = [] := by
  rw [run, runParse, withFile_of_ok h, status_eq_zero_iff, Parsed.isClean, List.isEmpty_iff]

theorem status_tokens : (run opener (.tokens path)).status = 0 ↔ (parsed path reads).lexicalCount = 0 := by
  rw [run, runTokens, withFile_of_ok h, status_eq_zero_iff, List.isEmpty_iff, lexicalCount_parseFile, List.length_eq_zero_iff]

theorem length_messages_tokens : (parsed path reads).lexicalCount = (run opener (.tokens path)).messages.length := by
  rw [run, runTokens, withFile_of_ok h, lexicalCount_parseFile]
  exact (List.length_map _).symm

theorem output_check_single : (run opener (.check [path])).output = (parsed path reads).summary path ++ "\n" := by
  simp only [run, runCheck, h, checkFile, withFile_of_ok h, Outcome.append, String.append_empty]

theorem status_check_cons (paths : List String) : (run opener (.check (path :: paths))).status = 0 ↔
    (parsed path reads).diagnostics = [] ∧ (run opener (.check paths)).status = 0 := by
  simp only [run, runCheck, h, checkFile, withFile_of_ok h, Outcome.append, Nat.max_eq_zero_iff, status_eq_zero_iff, Parsed.isClean,
    List.isEmpty_iff]

theorem output_check_cons (paths : List String) : (run opener (.check (path :: paths))).output =
    (run opener (.check [path])).output ++ (run opener (.check paths)).output := by
  simp only [run, runCheck, h, Outcome.append, String.append_empty]

end

theorem run_check_cons_of_error {opener : Opener} {path : String} {e : OpenError} (h : opener path = .error e) (paths : List String) :
    run opener (.check (path :: paths)) = failure path e := by
  rw [run, runCheck, h]

/-! ## Many files -/

/-- The lines that `check` writes are those of the files in front of the first that cannot be opened, each as for that file alone. -/
theorem output_check (paths : List String) : (run opener (.check paths)).output =
    String.join ((paths.takeWhile fun path => (opener path).isOk).map fun path => (run opener (.check [path])).output) := by
  induction paths with
  | nil => rfl
  | cons path paths ih =>
    cases h : opener path with
    | ok reads => rw [List.takeWhile_cons_of_pos (by rw [h]; rfl), List.map_cons, String.join_cons, output_check_cons h, ih]
    | error e =>
      rw [List.takeWhile_cons_of_neg (by rw [h]; exact Bool.false_ne_true), run_check_cons_of_error h]
      rfl

theorem status_check (paths : List String) : (run opener (.check paths)).status = 0 ↔
    ∀ path ∈ paths, ∃ reads, opener path = .ok reads ∧ (parsed path reads).diagnostics = [] := by
  induction paths with
  | nil => simp [run, runCheck]
  | cons path paths ih =>
    rw [List.forall_mem_cons, ← ih]
    cases h : opener path with
    | ok reads => simp [status_check_cons h]
    | error e => simp [run_check_cons_of_error h, failure]

theorem status_check_le_one (paths : List String) : (run opener (.check paths)).status ≤ 1 := by
  induction paths with
  | nil => exact Nat.zero_le 1
  | cons path paths ih =>
    cases h : opener path with
    | ok reads =>
      rw [run, runCheck, h, checkFile, withFile_of_ok h]
      exact Nat.max_le.2 ⟨status_le_one _, ih⟩
    | error e =>
      rw [run_check_cons_of_error h]
      exact le_rfl

/-- The commands agree with each other. What `check` writes for many files is what it writes for each of them alone, up to the first
that cannot be opened, and it succeeds if all can be opened and each line says `ok`. For a file that can be opened, the line tells
with which status the other commands end, and the counts in it add up to the diagnostics of a parse. -/
theorem commands_agree (opener : Opener) (paths : List String) :
    (run opener (.check paths)).output
        = String.join ((paths.takeWhile fun path => (opener path).isOk).map fun path => (run opener (.check [path])).output)
      ∧ ((run opener (.check paths)).status = 0
        ↔ ∀ path ∈ paths, ∃ reads, opener path = .ok reads ∧ (parsed path reads).summary path = path ++ ": ok")
      ∧ ((run opener (.check paths)).status ≠ 0 → (run opener (.check paths)).status = 1)
      ∧ ∀ path reads, opener path = .ok reads →
        let r := parsed path reads
        (run opener (.check [path])).output = r.summary path ++ "\n"
          ∧ ((run opener (.parse path true)).status = 0 ↔ r.summary path = path ++ ": ok")
          ∧ ((run opener (.tokens path)).status = 0
            ↔ r.summary path = path ++ ": ok" ∨ ∃ syntactic, r.summary path = Parsed.countLine path 0 syntactic)
          ∧ (r.summary path = path ++ ": ok" ∧ r.diagnostics.length = 0
            ∨ ∃ lexical syntactic, r.summary path = Parsed.countLine path lexical syntactic)
          ∧ ∀ lexical syntactic, r.summary path = Parsed.countLine path lexical syntactic →
            lexical = (run opener (.tokens path)).messages.length ∧ lexical + syntactic = r.diagnostics.length := by
  refine ⟨output_check opener paths, ?_, fun h => ?_, fun path reads h => ⟨output_check_single h, ?_, ?_, ?_, fun l s hsummary => ?_⟩⟩
  · simp only [Parsed.summary_eq_ok_iff, status_check]
  · have := status_check_le_one opener paths
    omega
  · rw [Parsed.summary_eq_ok_iff, status_parse h]
  · rw [status_tokens h, Parsed.lexicalCount_eq_zero_iff _ path]
  · exact Parsed.summary_cases _ path
  · obtain ⟨-, rfl, rfl⟩ := (Parsed.summary_eq_countLine_iff _ path).1 hsummary
    exact ⟨length_messages_tokens h, Parsed.lexicalCount_add_syntacticCount _⟩

/-- Four paths, one of them given twice: the third cannot be opened, so its line and the one behind it are not written. -/
theorem commands_agree_missing :
    let opener : Opener := fun path =>
      if path = "a.go" then .ok (ReadResult.ofContent (Utf8.encode "package a\nvar x = 08\nvar = 1\n".toList))
      else if path = "b.go" then .ok (ReadResult.ofContent (Utf8.encode "package b\n".toList))
      else .error .notFound
    (run opener (.check ["a.go", "b.go", "c.go", "a.go"])).output
        = "a.go: 2 diagnostics (1 lexical, 1 syntactic)\nb.go: ok\n"
      ∧ (run opener (.check ["a.go", "b.go", "c.go", "a.go"])).status = 1
      ∧ (run opener (.tokens "a.go")).messages.length = 1
      ∧ (run opener (.parse "b.go" true)).status = 0 := by
  intro opener
  have ha : (parsed "a.go" (ReadResult.ofContent (Utf8.encode "package a\nvar x = 08\nvar = 1\n".toList))).summary "a.go"
      = "a.go: 2 diagnostics (1 lexical, 1 syntactic)" := by decide +kernel
  have hb : (parsed "b.go" (ReadResult.ofContent (Utf8.encode "package b\n".toList))).summary "b.go" = "b.go: ok" := by decide +kernel
  obtain ⟨houtput, hstatus, hfails, heach⟩ := commands_agree opener ["a.go", "b.go", "c.go", "a.go"]
  obtain ⟨haline, -, -, -, hcounts⟩ := heach "a.go" _ rfl
  obtain ⟨hbline, hparse, -⟩ := heach "b.go" _ rfl
  refine ⟨?_, hfails fun h => ?_, ?_, ?_⟩
  · have hopened : (["a.go", "b.go", "c.go", "a.go"].takeWhile fun path => (opener path).isOk) = ["a.go", "b.go"] := by decide +kernel
    rw [houtput, hopened, List.map_cons, List.map_cons, List.map_nil, haline, hbline, ha, hb]
    decide
  · obtain ⟨_, hc, -⟩ := hstatus.1 h "c.go" (by decide)
    nomatch hc
  · exact (hcounts 1 1 ha).1.symm
  · exact hparse.2 hb

end Command

end GoSyntax
