import GrammarKit.Token.Lexer

/-!
# What the lexer makes of a source

The lexer neither invents nor moves a character: the lexemes of a source, written
one after the other, are the source, whatever the profile.  Characters are lost
only where a profile drops them, and a profile in which everything is punctuation
drops nothing.

## Main Definitions

* `Profile.Lexeme.chars` — the characters of a lexeme
* `Profile.Fits` — the shapes of the tokens that a profile makes
* `Profile.tokensFrom` — the tokens of characters from a position on
* `Profile.stateAfter` — what the lexer holds after some characters: the open run and
  the position of the next character

## Main Statements

* `Profile.flatMap_chars_lexemes` — the lexemes of a source make up the source
* `Profile.join_tokens` — so do its tokens, where nothing is dropped
* `Profile.fits_of_mem_tokens` — every token has one of the four shapes
* `Profile.tokensFrom_run`, `Profile.tokensFrom_punctuation` — the first token of
  characters and what is left behind it
* `Profile.scan_resume` — a scan goes on from the state that it has come to
* `Profile.tokensFrom_append` — the tokens behind a character that starts afresh
* `Profile.join_tokensFrom` — tokens make up the characters, where all are kept

## Design Notes

These facts are inductions over the characters with the open run generalised, and
they rest on lemmas about a single step.

Statements about the characters of a list are decided along the list.  There are
only finitely many characters, but too many to go through.
-/

namespace GrammarKit

instance decidableForallChar (P : Char → Prop) [DecidablePred P] (cs : List Char) :
    Decidable (∀ c ∈ cs, P c) :=
  List.decidableBAll P cs

instance decidableExistsChar (P : Char → Prop) [DecidablePred P] (cs : List Char) :
    Decidable (∃ c ∈ cs, P c) :=
  List.decidableBEx P cs

end GrammarKit

namespace GrammarKit.Profile

variable {p : Profile}

/-! ### The text of lexemes -/

/-- The characters of a lexeme. -/
def Lexeme.chars : Lexeme → List Char
  | .token t => t.text.toList
  | .dropped c _ => [c]

/-- The characters of a run that may be open. -/
def openChars (run : Option OpenRun) : List Char :=
  (run.map fun r => r.text.toList).getD []

@[simp] theorem openChars_none : openChars none = [] := rfl

@[simp] theorem openChars_some (run : OpenRun) : openChars (some run) = run.text.toList := rfl

/-- A character outside any run is given out, or it opens a run. -/
theorem flatMap_chars_begin (p : Profile) (position : Position) (c : Char) :
    (p.begin position c).1.flatMap Lexeme.chars ++ openChars (p.begin position c).2 = [c] := by
  unfold begin
  split
  · simp
  · split
    · simp [Lexeme.chars, tokenAt]
    · simp [Lexeme.chars]

/-- One step adds its character to what was given out and what is open. -/
theorem flatMap_chars_step (p : Profile) (run : Option OpenRun) (position : Position) (c : Char) :
    (p.step run position c).1.flatMap Lexeme.chars ++ openChars (p.step run position c).2 =
      openChars run ++ [c] := by
  cases run with
  | none => simpa [step] using p.flatMap_chars_begin position c
  | some run =>
      unfold step
      by_cases more : p.continues run.kind c = true
      · simp [more]
      · have fresh := p.flatMap_chars_begin position c
        simp only [more]
        simp [Lexeme.chars, OpenRun.close, tokenAt, fresh]

/-- A scan gives out the open run and all characters. -/
theorem flatMap_chars_scan (p : Profile) :
    ∀ (cs : List Char) (run : Option OpenRun) (position : Position),
      (p.scan run position cs).flatMap Lexeme.chars = openChars run ++ cs := by
  intro cs
  induction cs with
  | nil =>
      intro run position
      cases run with
      | none => rfl
      | some run => simp [scan, Lexeme.chars, OpenRun.close, tokenAt]
  | cons c cs ih =>
      intro run position
      have step := p.flatMap_chars_step run position c
      rw [scan, List.flatMap_append, ih, ← List.append_assoc, step, List.append_assoc]
      rfl

/-- **The lexemes of a source make up the source**, in order. -/
theorem flatMap_chars_lexemes (p : Profile) (source : String) :
    (p.lexemes source).flatMap Lexeme.chars = source.toList := by
  rw [lexemes, flatMap_chars_scan, openChars_none, List.nil_append]

/-! ### Invariants of a scan -/

/-- **What a scan gives out has a property** if the property holds of what a
character gives out by itself and of every run that closes.  `Growing` is what is
known of a run while it is open. -/
theorem scan_forall {Good : Lexeme → Prop} {Growing : OpenRun → Prop} {cs : List Char}
    (begins : ∀ position, ∀ c ∈ cs, (∀ lexeme ∈ (p.begin position c).1, Good lexeme) ∧
      ∀ run, (p.begin position c).2 = some run → Growing run)
    (grows : ∀ run c, Growing run → p.continues run.kind c = true →
      Growing { run with text := run.text.push c })
    (closes : ∀ run, Growing run → Good (.token run.close)) :
    ∀ (run : Option OpenRun) (position : Position),
      (∀ r, run = some r → Growing r) → ∀ lexeme ∈ p.scan run position cs, Good lexeme := by
  induction cs with
  | nil =>
      intro run position growing lexeme mem
      rw [scan, Option.mem_toList, Option.map_eq_some_iff] at mem
      obtain ⟨r, hr, rfl⟩ := mem
      exact closes r (growing r hr)
  | cons c cs ih =>
      intro run position growing lexeme mem
      obtain ⟨given, opened⟩ := begins position c List.mem_cons_self
      have step : (∀ lexeme ∈ (p.step run position c).1, Good lexeme) ∧
          ∀ r, (p.step run position c).2 = some r → Growing r := by
        unfold step
        split
        · exact ⟨given, opened⟩
        · rename_i r
          split
          · rename_i more
            refine ⟨by simp, fun next same => ?_⟩
            cases same
            exact grows r c (growing r rfl) more
          · refine ⟨fun lexeme mem => ?_, opened⟩
            rcases List.mem_cons.mp mem with rfl | later
            · exact closes r (growing r rfl)
            · exact given lexeme later
      rw [scan] at mem
      rcases List.mem_append.mp mem with now | later
      · exact step.1 lexeme now
      · exact ih (fun position d mem => begins position d (List.mem_cons_of_mem c mem)) _ _ step.2
          lexeme later

/-! ### Profiles that drop nothing -/

/-- A scan drops only what belongs to no class. -/
theorem scan_isToken {cs : List Char}
    (kept : ∀ c ∈ cs, ((p.opens? c).isSome || p.punctuation c) = true) (position : Position) :
    ∀ lexeme ∈ p.scan none position cs, ∃ t, lexeme = .token t := by
  refine @scan_forall p _ (fun _ => True) _ ?_ (fun _ _ _ _ => trivial) (fun run _ => ⟨_, rfl⟩)
    none position (fun _ same => by cases same)
  intro position c mem
  refine ⟨fun lexeme given => ?_, fun _ _ => trivial⟩
  unfold begin at given
  split at given
  · cases given
  · rename_i closed
    have punctuation := kept c mem
    rw [closed, Option.isSome_none, Bool.false_or] at punctuation
    rw [if_pos punctuation] at given
    exact ⟨_, List.mem_singleton.mp given⟩

/-- If every character is punctuation at worst, none is dropped. -/
theorem lexemes_isToken (all : ∀ c, p.punctuation c = true) (source : String) :
    ∀ lexeme ∈ p.lexemes source, ∃ t, lexeme = .token t :=
  scan_isToken (fun c _ => by rw [all, Bool.or_true]) .start

/-- The text of tokens is that of their lexemes. -/
theorem toList_join_filterMap {lexemes : List Lexeme}
    (all : ∀ lexeme ∈ lexemes, ∃ t, lexeme = .token t) :
    (Token.join (lexemes.filterMap Lexeme.token?)).toList = lexemes.flatMap Lexeme.chars := by
  induction lexemes with
  | nil => rfl
  | cons lexeme rest ih =>
      obtain ⟨t, rfl⟩ := all lexeme List.mem_cons_self
      have tail := ih fun other mem => all other (List.mem_cons_of_mem _ mem)
      rw [Token.join] at tail ⊢
      simp [Lexeme.token?, Lexeme.chars, tail, String.join_cons]

/-- **The tokens of a source make up the source**, where nothing is dropped. -/
theorem join_tokens (all : ∀ c, p.punctuation c = true) (source : String) :
    Token.join (p.tokens source) = source := by
  refine String.toList_inj.mp ?_
  rw [tokens, toList_join_filterMap (lexemes_isToken all source), flatMap_chars_lexemes]

/-! ### The shapes of tokens -/

/-- The class of characters that open a run of a kind. -/
def starts (p : Profile) : RunKind → Char → Bool
  | .blank, c => Text.isBlank c
  | .word, c => p.wordStart c
  | .number, c => p.numberStart c

/-- A character that opens a run is of the class for its kind. -/
theorem starts_of_opens? {kind : RunKind} {c : Char} (h : p.opens? c = some kind) :
    p.starts kind c = true := by
  unfold opens? at h
  split at h
  · cases h
    assumption
  · split at h
    · cases h
      assumption
    · split at h
      · cases h
        assumption
      · cases h

/-- The characters of a run: the first opens it, the others continue it. -/
def RunChars (p : Profile) (kind : RunKind) (cs : List Char) : Prop :=
  ∃ c rest, cs = c :: rest ∧ p.opens? c = some kind ∧ ∀ d ∈ rest, p.continues kind d = true

/-- **The shapes of tokens**: a run of characters with the type of its kind, or
one punctuation character that opens no run. -/
inductive Fits (p : Profile) (t : Token) : Prop where
  | run (kind : RunKind) : t.type = kind.tokenType → p.RunChars kind t.text.toList → Fits p t
  | punctuation (c : Char) : t.type = Token.punctuationType → t.text = String.singleton c →
      p.opens? c = none → p.punctuation c = true → Fits p t

/-- The tokens of characters from a position on, outside any run. -/
def tokensFrom (p : Profile) (position : Position) (cs : List Char) : List Token :=
  (p.scan none position cs).filterMap Lexeme.token?

@[simp] theorem tokensFrom_nil (p : Profile) (position : Position) :
    p.tokensFrom position [] = [] := rfl

/-- Every token has one of the shapes. -/
theorem fits_of_mem_tokensFrom {position : Position} {cs : List Char} {t : Token}
    (mem : t ∈ p.tokensFrom position cs) : p.Fits t := by
  obtain ⟨lexeme, given, isToken⟩ := List.mem_filterMap.mp mem
  have good : ∀ t, lexeme.token? = some t → p.Fits t := by
    refine @scan_forall p (fun lexeme => ∀ t, lexeme.token? = some t → p.Fits t)
      (fun run => p.RunChars run.kind run.text.toList) _ ?_ ?_ ?_ none position
      (fun _ same => by cases same) lexeme given
    · intro position c _
      unfold begin
      split
      · rename_i kind opens
        refine ⟨by simp, fun run same => ?_⟩
        cases same
        exact ⟨c, [], by simp, opens, by simp⟩
      · rename_i closed
        split
        · rename_i punctuation
          refine ⟨fun lexeme mem t same => ?_, fun _ same => by cases same⟩
          obtain rfl := List.mem_singleton.mp mem
          cases same
          exact .punctuation c rfl rfl closed punctuation
        · refine ⟨fun lexeme mem t same => ?_, fun _ same => by cases same⟩
          obtain rfl := List.mem_singleton.mp mem
          cases same
    · rintro run c ⟨d, rest, chars, opens, continue'⟩ more
      refine ⟨d, rest ++ [c], ?_, opens, ?_⟩
      · simp [chars]
      · intro e mem
        rcases List.mem_append.mp mem with before | new
        · exact continue' e before
        · rw [List.mem_singleton.mp new]
          exact more
    · intro run growing t same
      cases same
      exact .run run.kind rfl growing
  exact good t isToken

/-- Every token of a source has one of the shapes. -/
theorem fits_of_mem_tokens {source : String} {t : Token} (mem : t ∈ p.tokens source) : p.Fits t :=
  fits_of_mem_tokensFrom mem

/-! ### Maximal munch -/

/-- Outside a run of blanks no line feed is read, because it would open one. -/
theorem advance_of_opens? {c : Char} (solid : p.opens? c ≠ some .blank) (position : Position) :
    position.advance c = position.right := by
  rw [Position.advance, if_neg]
  rintro rfl
  exact solid (if_pos (by decide))

/-- A character outside any run is followed by the next line if it is a line feed. -/
theorem advanceIn_begin (p : Profile) (position : Position) (c : Char) :
    advanceIn (p.begin position c).2 position c = position.advance c := by
  unfold begin
  cases opens : p.opens? c with
  | none =>
      rw [advance_of_opens? (by rw [opens]; decide)]
      by_cases mark : p.punctuation c = true
      · simp only [if_pos mark]
        rfl
      · simp only [if_neg mark]
        rfl
  | some kind =>
      cases kind with
      | blank => rfl
      | word => exact (advance_of_opens? (by rw [opens]; decide) position).symm
      | number => exact (advance_of_opens? (by rw [opens]; decide) position).symm

/-- A scan outside any run begins with its first character. -/
theorem scan_none_cons (p : Profile) (position : Position) (c : Char) (cs : List Char) :
    p.scan none position (c :: cs) =
      (p.begin position c).1 ++ p.scan (p.begin position c).2 (position.advance c) cs := by
  rw [← p.advanceIn_begin position c]
  rfl

/-- An open run takes in a character that continues it. -/
theorem scan_some_cons {run : OpenRun} {c : Char} (more : p.continues run.kind c = true)
    (position : Position) (cs : List Char) :
    p.scan (some run) position (c :: cs) =
      p.scan (some { run with text := run.text.push c }) (run.kind.advance position c) cs := by
  rw [scan, step, if_pos more]
  rfl

/-- It closes before any other, and this starts afresh. -/
theorem scan_close {run : OpenRun} {c : Char} (ends : p.continues run.kind c = false)
    (position : Position) (cs : List Char) :
    p.scan (some run) position (c :: cs) = .token run.close :: p.scan none position (c :: cs) := by
  rw [scan, scan, step, step, if_neg (by rw [ends]; exact Bool.false_ne_true)]
  rfl

/-- An open run takes the characters that continue it and closes before the first
that does not. -/
theorem scan_run (p : Profile) {cs rest : List Char} :
    ∀ (run : OpenRun) (position : Position), (∀ c ∈ cs, p.continues run.kind c = true) →
      (∀ c, rest.head? = some c → p.continues run.kind c = false) →
      p.scan (some run) position (cs ++ rest) =
        .token (tokenAt run.kind.tokenType (run.text ++ String.ofList cs) run.start) ::
          p.scan none (run.kind.advanceAll position cs) rest := by
  induction cs with
  | nil =>
      intro run position _ ends
      have text : run.text ++ String.ofList [] = run.text := by simp
      rw [text]
      cases rest with
      | nil => rfl
      | cons d more => exact scan_close (ends d rfl) position more
  | cons c cs ih =>
      intro run position all ends
      have grown := ih { run with text := run.text.push c } (run.kind.advance position c)
        (fun d mem => all d (List.mem_cons_of_mem c mem)) ends
      have text : run.text.push c ++ String.ofList cs = run.text ++ String.ofList (c :: cs) :=
        String.toList_inj.mp (by simp)
      rw [text] at grown
      exact (scan_some_cons (all c List.mem_cons_self) position _).trans grown

/-- **A run is one token**, as long as it is not continued behind it. -/
theorem tokensFrom_run {kind : RunKind} {cs rest : List Char} (chars : p.RunChars kind cs)
    (ends : ∀ c, rest.head? = some c → p.continues kind c = false) (position : Position) :
    p.tokensFrom position (cs ++ rest) =
      tokenAt kind.tokenType (String.ofList cs) position ::
        p.tokensFrom (kind.advanceAll position cs) rest := by
  obtain ⟨c, more, rfl, opens, continues⟩ := chars
  have run := p.scan_run ⟨kind, position, String.singleton c⟩ (kind.advance position c)
    continues ends
  have text : String.singleton c ++ String.ofList more = String.ofList (c :: more) :=
    String.toList_inj.mp (by simp)
  rw [text] at run
  rw [tokensFrom, List.cons_append, scan, step, begin, opens]
  show (p.scan _ (kind.advance position c) (more ++ rest)).filterMap _ = _
  rw [run]
  rfl

/-- A punctuation character is a token of its own. -/
theorem tokensFrom_punctuation {c : Char} (closed : p.opens? c = none)
    (punctuation : p.punctuation c = true) (position : Position) (cs : List Char) :
    p.tokensFrom position (c :: cs) =
      tokenAt Token.punctuationType (String.singleton c) position ::
        p.tokensFrom (position.advance c) cs := by
  have given : p.begin position c =
      ([.token (tokenAt Token.punctuationType (String.singleton c) position)], none) := by
    rw [begin, closed]
    exact if_pos punctuation
  rw [tokensFrom, scan_none_cons, given]
  rfl

/-! ### Going on -/

/-- **What the lexer holds after some characters**: the run that is open, if any, and
the position of the next character. -/
def stateAfter (p : Profile) (run : Option OpenRun) (position : Position) :
    List Char → Option OpenRun × Position
  | [] => (run, position)
  | c :: cs =>
      stateAfter p (p.step run position c).2 (advanceIn (p.step run position c).2 position c) cs

/-- **A scan goes on from the state that it has come to.** -/
theorem scan_resume (p : Profile) (cs : List Char) :
    ∀ run position, ∃ given, ∀ rest, p.scan run position (cs ++ rest) =
      given ++ p.scan (p.stateAfter run position cs).1 (p.stateAfter run position cs).2 rest := by
  induction cs with
  | nil => exact fun run position => ⟨[], fun rest => rfl⟩
  | cons c cs ih =>
      intro run position
      obtain ⟨given, resumes⟩ := ih (p.step run position c).2
        (advanceIn (p.step run position c).2 position c)
      refine ⟨(p.step run position c).1 ++ given, fun rest => ?_⟩
      rw [List.append_assoc]
      exact congrArg ((p.step run position c).1 ++ ·) (resumes rest)

/-- The kind of an open run goes with the character that came last. -/
theorem kind_of_step {run : Option OpenRun} {position : Position} {c : Char} {next : OpenRun}
    (h : (p.step run position c).2 = some next) :
    p.starts next.kind c = true ∨ p.continues next.kind c = true := by
  have fresh : ∀ r, (p.begin position c).2 = some r → p.starts r.kind c = true := by
    intro r opened
    unfold begin at opened
    split at opened
    · rename_i kind opens
      cases opened
      exact starts_of_opens? opens
    · split at opened <;> cases opened
  cases run with
  | none => exact Or.inl (fresh next h)
  | some run =>
      rw [step] at h
      split at h
      · rename_i more
        cases h
        exact Or.inr more
      · exact Or.inl (fresh next h)

/-- So does the kind of the run that is open behind some characters. -/
theorem kind_of_stateAfter {cs : List Char} {c : Char} :
    ∀ {run : Option OpenRun} {position : Position} {next : OpenRun},
      cs.getLast? = some c → (p.stateAfter run position cs).1 = some next →
        p.starts next.kind c = true ∨ p.continues next.kind c = true := by
  induction cs with
  | nil => nofun
  | cons d cs ih =>
      intro run position next last opened
      cases cs with
      | nil =>
          cases last
          exact kind_of_step opened
      | cons e cs => exact ih (by simpa using last) opened

/-- **A character that continues no run starts afresh.** -/
theorem scan_append (p : Profile) {c : Char} {cs rest : List Char} {run : Option OpenRun}
    {position : Position}
    (closes : ∀ r, (p.stateAfter run position cs).1 = some r → p.continues r.kind c = false) :
    p.scan run position (cs ++ c :: rest) =
      p.scan run position cs ++ p.scan none (p.stateAfter run position cs).2 (c :: rest) := by
  obtain ⟨given, resumes⟩ := p.scan_resume cs run position
  have whole := resumes (c :: rest)
  have alone := resumes []
  rw [List.append_nil] at alone
  rw [whole, alone]
  cases opened : (p.stateAfter run position cs).1 with
  | none => simp [scan]
  | some r =>
      rw [List.append_assoc, scan_close (closes r opened)]
      rfl

/-- So the tokens behind it are those of what is left. -/
theorem tokensFrom_append (p : Profile) {c : Char} {cs rest : List Char}
    (last : ∀ d kind, cs.getLast? = some d → p.starts kind d = true ∨ p.continues kind d = true →
      p.continues kind c = false) (position : Position) :
    p.tokensFrom position (cs ++ c :: rest) = p.tokensFrom position cs ++
      p.tokensFrom (p.stateAfter none position cs).2 (c :: rest) := by
  have closes : ∀ r, (p.stateAfter none position cs).1 = some r →
      p.continues r.kind c = false := by
    intro r opened
    cases isLast : cs.getLast? with
    | none =>
        rw [List.getLast?_eq_none_iff.mp isLast] at opened
        cases opened
    | some d => exact last d r.kind isLast (kind_of_stateAfter isLast opened)
  rw [tokensFrom, p.scan_append closes, List.filterMap_append]
  rfl

/-- **The tokens of characters that are kept make up the characters.** -/
theorem join_tokensFrom (p : Profile) {cs : List Char}
    (kept : ∀ c ∈ cs, ((p.opens? c).isSome || p.punctuation c) = true) (position : Position) :
    (Token.join (p.tokensFrom position cs)).toList = cs := by
  rw [tokensFrom, toList_join_filterMap (scan_isToken kept position), flatMap_chars_scan]
  rfl

/-! ### The trace has no effect -/

theorem outcome_noteAll {ε : Type} (debug : Bool) :
    ∀ lines : List String, (noteAll debug lines : Traced ε Unit).outcome = .ok () := by
  intro lines
  induction lines with
  | nil => rfl
  | cons line rest ih =>
      show (Traced.note debug (fun _ => line) >>= fun _ => noteAll debug rest).outcome = _
      rw [Traced.outcome_bind, Traced.outcome_note]
      exact ih

/-- Tokenizing always succeeds. -/
theorem outcome_tokenize {ε : Type} (p : Profile) (debug : Bool) (source : String) :
    (p.tokenize debug source : Traced ε (List Token)).outcome = .ok (p.tokens source) := by
  rw [tokenize, Traced.outcome_bind, outcome_noteAll]
  rfl

end GrammarKit.Profile
