/- digest: The tokens of a text with their offsets and positions, and what they say of the text. -/

import ContextEngine.Chunking.TermPositions
import Mathlib.Data.List.Perm.Subperm
import Mathlib.Data.List.Chain
import Mathlib.Data.List.ProdSigma

set_option autoImplicit false

namespace ContextEngine

open List Offsets

/-- A word found by the dictionary segmenter, between two character indices of its window. -/
structure JiebaToken where
  word : Text
  start : Nat
  stop : Nat

/-- The dictionary segmenter, in its search mode. -/
class Jieba where
  tokenize : Text → List JiebaToken

/-- The words are stretches of the window that together cover it, none found twice. -/
structure Segments (window : Text) (tokens : List JiebaToken) : Prop where
  nonempty : ∀ token ∈ tokens, token.start < token.stop
  inside : ∀ token ∈ tokens, token.stop ≤ window.length
  word : ∀ token ∈ tokens, token.word = (window.take token.stop).drop token.start
  covers : ∀ index < window.length, ∃ token ∈ tokens, token.start ≤ index ∧ index < token.stop
  distinct : (tokens.map fun token => (token.start, token.stop)).Nodup

structure MixedToken where
  text : Text
  offsetFrom : Nat
  offsetTo : Nat
  position : Nat
  positionLength : Nat
  deriving DecidableEq

def calcCharOffsets (text : Text) : List Nat :=
  0 :: (((indices 0 text).drop 1).map Prod.fst ++ [extent text])

section Reading

variable [CaseTables] [Jieba]

def pushTokens (base : Nat) (window : Text) (position : Nat) : List JiebaToken → List MixedToken
  | [] => []
  | jt :: rest =>
    { text := jt.word
      offsetFrom := base + ((calcCharOffsets window)[jt.start]?).getD 0
      offsetTo := base + ((calcCharOffsets window)[jt.stop]?).getD (extent window)
      position
      positionLength := 1 } :: pushTokens base window (position + 1) rest

def pushCjkWindow (base position : Nat) (window : Text) : List MixedToken × Nat :=
  let tokens := Jieba.tokenize window
  (pushTokens base window position tokens, position + tokens.length)

def pushCjkRun (base position : Nat) : Text → List MixedToken × Nat
  | [] => ([], position)
  | c :: rest =>
    let window := (c :: rest).take maxCjkRunChars
    let read := pushCjkWindow base position window
    let later := pushCjkRun (base + extent window) read.2 (rest.drop (maxCjkRunChars - 1))
    (read.1 ++ later.1, later.2)
termination_by run => run.length

def pushWord (base position : Nat) (word : Text) : List MixedToken × Nat :=
  match (indices 0 word).find? fun entry => UnicodeTables.isAlphanumeric entry.2 with
  | none => ([], position)
  | some first =>
    let trimmedEnd :=
      (((indices 0 word).reverse.find? fun entry => UnicodeTables.isAlphanumeric entry.2).map
        fun last => last.1 + last.2.utf8Size).getD (extent word)
    let trimmed := slice word first.1 trimmedEnd
    let originalLower := lowercase trimmed
    let original : MixedToken :=
      { text := originalLower
        offsetFrom := base + first.1
        offsetTo := base + trimmedEnd
        position
        positionLength := 1 }
    let parts := (splitIdentifier trimmed).filter fun part => part ≠ originalLower
    (original :: parts.map fun part => { original with text := part, positionLength := 0 },
      position + 1)

def segmentFrom (offset position : Nat) : Text → List MixedToken × Nat
  | [] => ([], position)
  | c :: rest =>
    if isCjk c then
      let run := c :: rest.takeWhile isCjk
      let read := pushCjkRun offset position run
      let later := segmentFrom (offset + extent run) read.2 (rest.dropWhile isCjk)
      (read.1 ++ later.1, later.2)
    else if isWhitespace c then segmentFrom (offset + c.utf8Size) position rest
    else
      let word := c :: rest.takeWhile isWordChar
      let read := pushWord offset position word
      let later := segmentFrom (offset + extent word) read.2 (rest.dropWhile isWordChar)
      (read.1 ++ later.1, later.2)
termination_by text => text.length
decreasing_by
  all_goals
    have shorter := (List.dropWhile_sublist (l := rest) isCjk).length_le
    have shorter' := (List.dropWhile_sublist (l := rest) isWordChar).length_le
    simp only [List.length_cons]
    omega

def segmentText (text : Text) : List MixedToken := (segmentFrom 0 0 (capText text)).1

end Reading

section Counting

/-- The positions start with the next free one, go up one at a time, and end before `next`. -/
structure Counted (position : Nat) (tokens : List MixedToken) (next : Nat) : Prop where
  first : ∀ token ∈ tokens.head?, token.position = position
  climbs : tokens.IsChain fun token later =>
    token.position ≤ later.position ∧ later.position ≤ token.position + 1
  last : next = (tokens.getLast?.map fun token => token.position + 1).getD position
  below : ∀ token ∈ tokens, token.position < next
  rises : position ≤ next

namespace Counted

variable {position middle next : Nat} {tokens more : List MixedToken}

theorem nil (position : Nat) : Counted position [] position where
  first := by simp
  climbs := isChain_nil
  last := rfl
  below := by simp
  rises := le_rfl

theorem append (inFront : Counted position tokens middle) (behind : Counted middle more next) :
    Counted position (tokens ++ more) next where
  first token mem := by
    cases tokens with
    | nil =>
      have same : middle = position := inFront.last
      rw [← same]
      exact behind.first token mem
    | cons head tokens => exact inFront.first token mem
  climbs := by
    rw [isChain_append]
    refine ⟨inFront.climbs, behind.climbs, fun lower lastMem upper firstMem => ?_⟩
    have ends := inFront.last
    rw [Option.mem_def.1 lastMem] at ends
    have starts := behind.first upper firstMem
    simp only [Option.map_some, Option.getD_some] at ends
    omega
  last := by
    rw [getLast?_append, behind.last]
    cases more.getLast? with
    | some token => rfl
    | none => exact inFront.last
  below token mem := by
    rcases mem_append.1 mem with early | late
    · exact (inFront.below token early).trans_le behind.rises
    · exact behind.below token late
  rises := inFront.rises.trans behind.rises

theorem const (ne : tokens ≠ []) (same : ∀ token ∈ tokens, token.position = position) :
    Counted position tokens (position + 1) where
  first token mem := same token (mem_of_mem_head? mem)
  climbs := by
    refine List.Pairwise.isChain (pairwise_of_forall_mem_list fun token mem later laterMem => ?_)
    rw [same token mem, same later laterMem]
    omega
  last := by
    rw [getLast?_eq_some_getLast ne, Option.map_some, Option.getD_some, same _ (getLast_mem ne)]
  below token mem := by
    rw [same token mem]
    omega
  rises := Nat.le_succ position

end Counted

end Counting

section Reading

variable [CaseTables]

/-- How a token renders the stretch of text it stands for: a word of the dictionary as it is, a word
in lowercase, or a part of a word. -/
inductive Renders (surface : Text) (token : MixedToken) : Prop
  | dictionary (whole : token.positionLength = 1) (cjk : ∀ c ∈ surface, isCjk c = true)
      (same : token.text = surface)
  | word (whole : token.positionLength = 1) (plain : ∀ c ∈ surface, isWordChar c = true)
      (lower : token.text = lowercase surface)
  | part (auxiliary : token.positionLength = 0) (plain : ∀ c ∈ surface, isWordChar c = true)
      (split : token.text ∈ splitIdentifier surface)
      (inside : ∃ piece, piece <:+: surface ∧ token.text = lowercase piece)

def Stands (offset : Nat) (text : Text) (token : MixedToken) : Prop :=
  ∃ before surface after, text = before ++ (surface ++ after) ∧ surface ≠ [] ∧
    token.offsetFrom = offset + extent before ∧
    token.offsetTo = offset + extent before + extent surface ∧ Renders surface token

def MixedToken.Encloses (token : MixedToken) (offset : Nat) (c : Char) : Prop :=
  token.offsetFrom ≤ offset ∧ offset + c.utf8Size ≤ token.offsetTo

def MixedToken.IsOriginalOf (original token : MixedToken) : Prop :=
  original.positionLength = 1 ∧ original.position = token.position ∧
    original.offsetFrom = token.offsetFrom ∧ original.offsetTo = token.offsetTo

/-- No more positions than this for each character. -/
def positionsPerChar : Nat := maxCjkRunChars + 1

/-- What the tokens of a text from an offset and a position on are like. -/
structure Reads (offset position : Nat) (text : Text) (read : List MixedToken × Nat) : Prop where
  stands : ∀ token ∈ read.1, Stands offset text token
  counted : Counted position read.1 read.2
  originals : ∀ token ∈ read.1, token.positionLength = 0 →
    ∃ original ∈ read.1, original.IsOriginalOf token
  covers : ∀ before c after, text = before ++ c :: after → UnicodeTables.isAlphanumeric c = true →
    ∃ token ∈ read.1, token.Encloses (offset + extent before) c
  few : read.2 ≤ position + positionsPerChar * text.length

namespace Reads

variable {offset position : Nat} {front back : Text} {read later : List MixedToken × Nat}

theorem nil (offset position : Nat) : Reads offset position [] ([], position) where
  stands := by simp
  counted := Counted.nil position
  originals := by simp
  covers before c after split := by simp at split
  few := by simp

theorem append (inFront : Reads offset position front read)
    (behind : Reads (offset + extent front) read.2 back later) :
    Reads offset position (front ++ back) (read.1 ++ later.1, later.2) where
  stands token mem := by
    rcases mem_append.1 mem with early | late
    · obtain ⟨before, surface, after, rfl, some_, starts, ends, renders⟩ :=
        inFront.stands token early
      exact ⟨before, surface, after ++ back, by simp, some_, starts, ends, renders⟩
    · obtain ⟨before, surface, after, rfl, some_, starts, ends, renders⟩ := behind.stands token late
      refine ⟨front ++ before, surface, after, by simp, some_, ?_, ?_, renders⟩
      · rw [starts, extent_append]
        omega
      · rw [ends, extent_append]
        omega
  counted := inFront.counted.append behind.counted
  originals token mem auxiliary := by
    rcases mem_append.1 mem with early | late
    · obtain ⟨original, found, same⟩ := inFront.originals token early auxiliary
      exact ⟨original, mem_append_left _ found, same⟩
    · obtain ⟨original, found, same⟩ := behind.originals token late auxiliary
      exact ⟨original, mem_append_right _ found, same⟩
  covers before c after split alphanumeric := by
    rcases append_eq_append_iff.1 split with ⟨rest, rfl, tail⟩ | ⟨rest, whole, tail⟩
    · obtain ⟨token, mem, encloses⟩ := behind.covers rest c after tail alphanumeric
      refine ⟨token, mem_append_right _ mem, ?_⟩
      rwa [extent_append, ← Nat.add_assoc]
    · cases rest with
      | nil =>
        obtain ⟨token, mem, encloses⟩ := behind.covers [] c after (by simpa using tail.symm)
          alphanumeric
        refine ⟨token, mem_append_right _ mem, ?_⟩
        simpa [whole] using encloses
      | cons d rest =>
        obtain ⟨rfl, -⟩ := cons.inj tail
        obtain ⟨token, mem, encloses⟩ := inFront.covers before c rest whole alphanumeric
        exact ⟨token, mem_append_left _ mem, encloses⟩
  few := by
    have early := inFront.few
    have late := behind.few
    rw [length_append, Nat.mul_add]
    omega

theorem skip (offset position : Nat) {text : Text}
    (none : ∀ c ∈ text, UnicodeTables.isAlphanumeric c = false) :
    Reads offset position text ([], position) where
  stands := by simp
  counted := Counted.nil position
  originals := by simp
  covers before c after split alphanumeric := by
    rw [none c (by simp [split])] at alphanumeric
    cases alphanumeric
  few := by simp

end Reads

end Reading

section Words

theorem exists_first {p : Char → Bool} {text : Text} (some_ : ∃ c ∈ text, p c = true) :
    ∃ before c after, text = before ++ c :: after ∧ (∀ b ∈ before, p b = false) ∧ p c = true := by
  obtain ⟨c, found⟩ := Option.isSome_iff_exists.1 (find?_isSome.2 some_)
  obtain ⟨passes, before, after, rfl, fails⟩ := find?_eq_some_iff_append.1 found
  exact ⟨before, c, after, rfl, fun b mem => by simpa using fails b mem, passes⟩

theorem exists_trimmed {p : Char → Bool} {word : Text} (some_ : ∃ c ∈ word, p c = true) :
    ∃ before c rest front d after, word = before ++ (c :: rest ++ after) ∧
      c :: rest = front ++ [d] ∧
      (∀ b ∈ before, p b = false) ∧ p c = true ∧ p d = true ∧ ∀ b ∈ after, p b = false := by
  obtain ⟨before, c, tail, rfl, fails, passes⟩ := exists_first some_
  have inReverse : ∃ d ∈ (c :: tail).reverse, p d = true := ⟨c, by simp, passes⟩
  obtain ⟨later, d, earlier, turned, fails', passes'⟩ := exists_first inReverse
  have whole : c :: tail = earlier.reverse ++ [d] ++ later.reverse := by
    have back := congrArg reverse turned
    simpa using back
  obtain ⟨rest, core⟩ : ∃ rest, earlier.reverse ++ [d] = c :: rest := by
    cases front : earlier.reverse with
    | nil =>
      rw [front] at whole
      obtain ⟨rfl, -⟩ := cons.inj whole
      exact ⟨[], rfl⟩
    | cons e front' =>
      rw [front] at whole
      obtain ⟨rfl, -⟩ := cons.inj whole
      exact ⟨front' ++ [d], rfl⟩
  refine ⟨before, c, rest, earlier.reverse, d, later.reverse, ?_, core.symm, fails, passes, passes',
    fun b mem => fails' b (mem_reverse.1 mem)⟩
  rw [whole, core]

theorem exists_middle {before core after front back : Text} {c : Char}
    (split : before ++ (core ++ after) = front ++ c :: back) (notBefore : c ∉ before)
    (notAfter : c ∉ after) : ∃ m rest, front = before ++ m ∧ core = m ++ c :: rest := by
  rcases append_eq_append_iff.1 split with ⟨m, rfl, tail⟩ | ⟨m, rfl, tail⟩
  · refine ⟨m, ?_⟩
    rcases append_eq_append_iff.1 tail with ⟨n, rfl, late⟩ | ⟨n, rfl, early⟩
    · exact absurd (by simp [late]) notAfter
    · cases n with
      | nil =>
        rw [nil_append] at early
        exact absurd (by simp [← early]) notAfter
      | cons d n =>
        obtain ⟨rfl, -⟩ := cons.inj early
        exact ⟨n, rfl, rfl⟩
  · cases m with
    | nil =>
      cases core with
      | nil =>
        rw [nil_append, nil_append] at tail
        exact absurd (by simp [← tail]) notAfter
      | cons d core =>
        obtain ⟨rfl, -⟩ := cons.inj tail
        exact ⟨[], core, by simp, rfl⟩
    | cons d m =>
      obtain ⟨rfl, -⟩ := cons.inj tail
      exact absurd (by simp) notBefore

variable [CaseTables]

theorem reads_pushWord (offset position : Nat) {word : Text} (ne : word ≠ [])
    (plain : ∀ c ∈ word, isWordChar c = true) :
    Reads offset position word (pushWord offset position word) := by
  by_cases some_ : ∃ c ∈ word, UnicodeTables.isAlphanumeric c = true
  · obtain ⟨before, c, rest, front, d, after, rfl, core, fails, passes, passes', fails'⟩ :=
      exists_trimmed some_
    have first : (indices 0 (before ++ (c :: rest ++ after))).find?
        (fun entry => UnicodeTables.isAlphanumeric entry.2) = some (extent before, c) := by
      have found := find?_indices 0 fails passes (rest ++ after)
      simpa using found
    have last : (indices 0 (before ++ (c :: rest ++ after))).reverse.find?
        (fun entry => UnicodeTables.isAlphanumeric entry.2) =
          some (extent (before ++ front), d) := by
      have regrouped : before ++ (c :: rest ++ after) = (before ++ front) ++ d :: after := by
        rw [core]
        simp
      rw [regrouped]
      have found := find?_reverse_indices 0 fails' passes' (before ++ front)
      simpa using found
    have ends : extent (before ++ front) + d.utf8Size = extent before + extent (c :: rest) := by
      rw [core, extent_append, extent_append, Nat.add_assoc]
      rfl
    have trimmed : slice (before ++ (c :: rest ++ after)) (extent before)
        (extent before + extent (c :: rest)) = c :: rest := slice_of_append before (c :: rest) after
    have plainCore : ∀ b ∈ c :: rest, isWordChar b = true := fun b mem =>
      plain b (by simp only [mem_append]; exact Or.inr (Or.inl mem))
    have place : ∀ token : MixedToken, token.offsetFrom = offset + extent before →
        token.offsetTo = offset + (extent before + extent (c :: rest)) →
        Renders (c :: rest) token → Stands offset (before ++ (c :: rest ++ after)) token :=
      fun token starts stops renders => ⟨before, c :: rest, after, rfl, by simp, starts,
        by rw [stops, Nat.add_assoc], renders⟩
    rw [pushWord, first]
    dsimp only
    rw [last, Option.map_some, Option.getD_some, ends, trimmed]
    constructor
    · intro token mem
      rcases mem_cons.1 mem with rfl | part
      · exact place _ rfl rfl (.word rfl plainCore rfl)
      · obtain ⟨text, split, rfl⟩ := mem_map.1 part
        have inSplit := (mem_filter.1 split).1
        exact place _ rfl rfl (.part rfl plainCore inSplit (mem_splitIdentifier inSplit))
    · refine Counted.const (cons_ne_nil _ _) fun token mem => ?_
      rcases mem_cons.1 mem with rfl | part
      · rfl
      · obtain ⟨text, _, rfl⟩ := mem_map.1 part
        rfl
    · intro token mem auxiliary
      refine ⟨_, mem_cons_self, rfl, ?_⟩
      rcases mem_cons.1 mem with rfl | part
      · cases auxiliary
      · obtain ⟨text, _, rfl⟩ := mem_map.1 part
        exact ⟨rfl, rfl, rfl⟩
    · intro front' b back split alphanumeric
      have notBefore : b ∉ before := fun mem => by simp [fails b mem] at alphanumeric
      have notAfter : b ∉ after := fun mem => by simp [fails' b mem] at alphanumeric
      obtain ⟨m, tail, rfl, inCore⟩ := exists_middle split notBefore notAfter
      refine ⟨_, mem_cons_self, ?_, ?_⟩
      · rw [extent_append]
        dsimp only
        omega
      · have wide : extent (c :: rest) = extent m + (b.utf8Size + extent tail) := by
          rw [inCore, extent_append]
          rfl
        rw [extent_append, wide]
        dsimp only
        omega
    · have one : 0 < positionsPerChar * (before ++ (c :: rest ++ after)).length :=
        Nat.mul_pos (by decide) (length_pos_of_ne_nil ne)
      dsimp only
      omega
  · have bare : ∀ c ∈ word, UnicodeTables.isAlphanumeric c = false := by
      intro c mem
      rw [← Bool.not_eq_true]
      exact fun alphanumeric => some_ ⟨c, mem, alphanumeric⟩
    have nothing : (indices 0 word).find? (fun entry => UnicodeTables.isAlphanumeric entry.2) =
        none := by
      rw [find?_eq_none]
      rintro ⟨place, c⟩ mem
      obtain ⟨front, back, rfl, -⟩ := mem_indices.1 mem
      simp [bare c (by simp)]
    rw [pushWord, nothing]
    exact Reads.skip offset position bare

end Words

section Windows

theorem calcCharOffsets_getElem? {text : Text} {index : Nat} (ne : text ≠ [])
    (inside : index ≤ text.length) :
    (calcCharOffsets text)[index]? = some (extent (text.take index)) := by
  have ends : calcCharOffsets text = (indices 0 text).map Prod.fst ++ [0 + extent text] := by
    cases text with
    | nil => exact absurd rfl ne
    | cons c text => simp [calcCharOffsets, indices]
  rw [ends, getElem?_ends 0 text inside, Nat.zero_add]

theorem extent_take_mono (text : Text) {low high : Nat} (le : low ≤ high) :
    extent (text.take low) ≤ extent (text.take high) := by
  have parts : (text.take high).take low ++ (text.take high).drop low = text.take high :=
    take_append_drop low _
  rw [← parts, extent_append, take_take, Nat.min_eq_left le]
  omega

/-- Where the token of a dictionary word stands. -/
structure IsTokenOf (base : Nat) (window : Text) (jt : JiebaToken) (token : MixedToken) : Prop where
  text : token.text = jt.word
  offsetFrom : token.offsetFrom = base + ((calcCharOffsets window)[jt.start]?).getD 0
  offsetTo : token.offsetTo = base + ((calcCharOffsets window)[jt.stop]?).getD (extent window)
  whole : token.positionLength = 1

variable {base position : Nat} {window : Text} {tokens : List JiebaToken}

theorem mem_pushTokens {token : MixedToken} (mem : token ∈ pushTokens base window position tokens) :
    ∃ jt ∈ tokens, IsTokenOf base window jt token := by
  induction tokens generalizing position with
  | nil => cases mem
  | cons jt tokens ih =>
    rcases mem_cons.1 mem with rfl | later
    · exact ⟨jt, by simp, rfl, rfl, rfl, rfl⟩
    · obtain ⟨other, otherMem, isToken⟩ := ih later
      exact ⟨other, mem_cons_of_mem _ otherMem, isToken⟩

variable (base window) in
theorem exists_pushTokens {jt : JiebaToken} (mem : jt ∈ tokens) (position : Nat) :
    ∃ token ∈ pushTokens base window position tokens, IsTokenOf base window jt token := by
  induction tokens generalizing position with
  | nil => cases mem
  | cons other tokens ih =>
    rcases mem_cons.1 mem with rfl | later
    · exact ⟨_, mem_cons_self, rfl, rfl, rfl, rfl⟩
    · obtain ⟨token, tokenMem, isToken⟩ := ih later (position + 1)
      exact ⟨token, mem_cons_of_mem _ tokenMem, isToken⟩

theorem counted_pushTokens (base : Nat) (window : Text) (position : Nat)
    (tokens : List JiebaToken) :
    Counted position (pushTokens base window position tokens) (position + tokens.length) := by
  induction tokens generalizing position with
  | nil => exact Counted.nil position
  | cons jt tokens ih =>
    have later := ih (position + 1)
    rw [Nat.add_right_comm, Nat.add_assoc] at later
    refine Counted.append (Counted.const (cons_ne_nil _ []) ?_) later
    simp

theorem Segments.length_le (segments : Segments window tokens) :
    tokens.length ≤ window.length * (window.length + 1) := by
  have places : (tokens.map fun token => (token.start, token.stop)) ⊆
      range window.length ×ˢ range (window.length + 1) := by
    intro place mem
    obtain ⟨token, tokenMem, rfl⟩ := mem_map.1 mem
    have some_ := segments.nonempty token tokenMem
    have inside := segments.inside token tokenMem
    exact pair_mem_product.2 ⟨mem_range.2 (by omega), mem_range.2 (by omega)⟩
  have bound := (segments.distinct.subperm places).length_le
  rwa [length_map, length_product, length_range, length_range] at bound

variable [CaseTables]

theorem IsTokenOf.stands {jt : JiebaToken} {token : MixedToken}
    (isToken : IsTokenOf base window jt token) (segments : Segments window tokens)
    (mem : jt ∈ tokens) (cjk : ∀ c ∈ window, isCjk c = true) : Stands base window token := by
  have some_ := segments.nonempty jt mem
  have inside := segments.inside jt mem
  have ne : window ≠ [] := by
    rintro rfl
    simp only [length_nil] at inside
    omega
  have front : (window.take jt.stop).take jt.start = window.take jt.start := by
    rw [take_take, Nat.min_eq_left some_.le]
  have parts : window.take jt.start ++ (window.take jt.stop).drop jt.start =
      window.take jt.stop := by
    rw [← front, take_append_drop]
  have ends : extent (window.take jt.stop) =
      extent (window.take jt.start) + extent ((window.take jt.stop).drop jt.start) := by
    rw [← extent_append, parts]
  refine ⟨window.take jt.start, (window.take jt.stop).drop jt.start, window.drop jt.stop,
    ?_, ?_, ?_,
    ?_, ?_⟩
  · rw [← append_assoc, parts, take_append_drop]
  · intro empty
    have long := congrArg length empty
    rw [length_drop, length_take, length_nil] at long
    omega
  · rw [isToken.offsetFrom, calcCharOffsets_getElem? ne (by omega), Option.getD_some]
  · rw [isToken.offsetTo, calcCharOffsets_getElem? ne inside, Option.getD_some, ends, Nat.add_assoc]
  · refine .dictionary isToken.whole (fun c inWord => cjk c ?_) ?_
    · exact mem_of_mem_take (mem_of_mem_drop inWord)
    · rw [isToken.text, segments.word jt mem]

variable [Jieba]

theorem reads_pushCjkWindow (base position : Nat) (cjk : ∀ c ∈ window, isCjk c = true)
    (short : window.length ≤ maxCjkRunChars) (segments : Segments window (Jieba.tokenize window)) :
    Reads base position window (pushCjkWindow base position window) where
  stands token mem := by
    obtain ⟨jt, found, isToken⟩ := mem_pushTokens mem
    exact isToken.stands segments found cjk
  counted := counted_pushTokens base window position _
  originals token mem auxiliary := by
    obtain ⟨jt, _, isToken⟩ := mem_pushTokens mem
    rw [isToken.whole] at auxiliary
    cases auxiliary
  covers before c after split alphanumeric := by
    have inside : before.length < window.length := by simp [split]
    have ne : window ≠ [] := by
      rintro rfl
      cases inside
    obtain ⟨jt, found, low, high⟩ := segments.covers before.length inside
    obtain ⟨token, mem, isToken⟩ := exists_pushTokens base window found position
    have front : window.take before.length = before := by simp [split]
    have upTo : extent (window.take (before.length + 1)) = extent before + c.utf8Size := by
      have taken : window.take (before.length + 1) = before ++ [c] := by
        rw [split, take_length_add_append]
        rfl
      rw [taken, extent_append]
      rfl
    refine ⟨token, mem, ?_, ?_⟩
    · rw [isToken.offsetFrom, calcCharOffsets_getElem? ne (by omega), Option.getD_some]
      have le := extent_take_mono window low
      rw [front] at le
      omega
    · rw [isToken.offsetTo, calcCharOffsets_getElem? ne (segments.inside jt found),
        Option.getD_some]
      have le := extent_take_mono window high
      rw [upTo] at le
      omega
  few := by
    have bound := segments.length_le
    have wide : window.length * (window.length + 1) ≤ window.length * positionsPerChar :=
      Nat.mul_le_mul_left _ (Nat.succ_le_succ short)
    rw [Nat.mul_comm positionsPerChar]
    exact Nat.add_le_add_left (bound.trans wide) position

theorem reads_pushCjkRun (segments : ∀ window, Segments window (Jieba.tokenize window))
    (base position : Nat) {run : Text} (cjk : ∀ c ∈ run, isCjk c = true) :
    Reads base position run (pushCjkRun base position run) := by
  fun_induction pushCjkRun base position run with
  | case1 base position => exact Reads.nil base position
  | case2 base position c rest window read later ih =>
    have back : rest.drop (maxCjkRunChars - 1) = (c :: rest).drop maxCjkRunChars := rfl
    have behind := ih fun d mem => cjk d (mem_of_mem_drop (back ▸ mem))
    have inFront : Reads base position window (pushCjkWindow base position window) :=
      reads_pushCjkWindow base position (fun d mem => cjk d (mem_of_mem_take mem))
        (length_take_le _ _) (segments window)
    have whole : window ++ rest.drop (maxCjkRunChars - 1) = c :: rest := by
      rw [back]
      exact take_append_drop _ _
    rw [← whole]
    exact inFront.append behind

theorem reads_segmentFrom (segments : ∀ window, Segments window (Jieba.tokenize window))
    (spaces : ∀ c, isWhitespace c = true → UnicodeTables.isAlphanumeric c = false)
    (offset position : Nat) (text : Text) :
    Reads offset position text (segmentFrom offset position text) := by
  fun_induction segmentFrom offset position text with
  | case1 offset position => exact Reads.nil offset position
  | case2 offset position c rest cjk run read later ih =>
    have inRun : ∀ d ∈ run, isCjk d = true := by
      intro d mem
      rcases mem_cons.1 mem with rfl | taken
      · exact cjk
      · exact mem_takeWhile_imp taken
    have whole : run ++ rest.dropWhile isCjk = c :: rest := by
      rw [cons_append, takeWhile_append_dropWhile]
    rw [← whole]
    exact (reads_pushCjkRun segments offset position inRun).append ih
  | case3 offset position c rest cjk space ih =>
    have skipped : Reads offset position [c] ([], position) :=
      Reads.skip offset position fun d mem => by
        rw [mem_singleton.1 mem]
        exact spaces c space
    exact skipped.append ih
  | case4 offset position c rest cjk space word read later ih =>
    have inWord : ∀ d ∈ word, isWordChar d = true := by
      intro d mem
      rcases mem_cons.1 mem with rfl | taken
      · simp [isWordChar, cjk, space]
      · exact mem_takeWhile_imp taken
    have whole : word ++ rest.dropWhile isWordChar = c :: rest := by
      rw [cons_append, takeWhile_append_dropWhile]
    rw [← whole]
    exact (reads_pushWord offset position (cons_ne_nil _ _) inWord).append ih

end Windows

section Soundness

variable [CaseTables]

/-- The tokens of a text: where they stand, how their positions go, and what they cover. -/
structure SoundTokens (text : Text) (tokens : List MixedToken) : Prop where
  cuts : ∀ token ∈ tokens, Cut text token.offsetFrom ∧ Cut text token.offsetTo
  inRange : ∀ token ∈ tokens, token.offsetFrom < token.offsetTo ∧
    token.offsetTo ≤ extent (capText text)
  surfaces : ∀ token ∈ tokens, Renders (slice text token.offsetFrom token.offsetTo) token
  first : ∀ token ∈ tokens.head?, token.position = 0
  climbs : tokens.IsChain fun token later =>
    token.position ≤ later.position ∧ later.position ≤ token.position + 1
  narrow : ∀ token ∈ tokens, token.position < 2 ^ 32
  originals : ∀ token ∈ tokens, token.positionLength = 0 →
    ∃ original ∈ tokens, original.IsOriginalOf token
  covers : ∀ before c after, capText text = before ++ c :: after →
    UnicodeTables.isAlphanumeric c = true →
    ∃ token ∈ tokens, token.Encloses (extent before) c

/-- The tokens of a text are sound, if the segmenter finds stretches of its windows that cover them
and white space is neither a letter nor a digit. -/
theorem soundTokens_segmentText [Jieba]
    (segments : ∀ window, Segments window (Jieba.tokenize window))
    (spaces : ∀ c, isWhitespace c = true → UnicodeTables.isAlphanumeric c = false) (text : Text) :
    SoundTokens text (segmentText text) := by
  have reads := reads_segmentFrom segments spaces 0 0 (capText text)
  have capped : capText text ++ text.drop maxTokenizeChars = text := take_append_drop _ _
  have stands : ∀ token ∈ segmentText text, ∃ before surface after,
      capText text = before ++ (surface ++ after) ∧ surface ≠ [] ∧
      token.offsetFrom = extent before ∧ token.offsetTo = extent before + extent surface ∧
      Renders surface token := by
    intro token mem
    obtain ⟨before, surface, after, split, some_, starts, ends, renders⟩ := reads.stands token mem
    refine ⟨before, surface, after, split, some_, ?_, ?_, renders⟩
    · rw [starts, Nat.zero_add]
    · rw [ends, Nat.zero_add]
  constructor
  · intro token mem
    obtain ⟨before, surface, after, split, _, starts, ends, _⟩ := stands token mem
    rw [split, append_assoc] at capped
    rw [starts, ends, ← capped, ← extent_append]
    constructor
    · exact Cut.front _ _
    · have grouped : before ++ ((surface ++ after) ++ text.drop maxTokenizeChars) =
          (before ++ surface) ++ (after ++ text.drop maxTokenizeChars) := by simp
      rw [grouped]
      exact Cut.front _ _
  · intro token mem
    obtain ⟨before, surface, after, split, some_, starts, ends, _⟩ := stands token mem
    have wide := extent_pos some_
    rw [starts, ends, split, extent_append, extent_append]
    omega
  · intro token mem
    obtain ⟨before, surface, after, split, _, starts, ends, renders⟩ := stands token mem
    rw [split, append_assoc, append_assoc] at capped
    have surfaceAt : slice text (extent before) (extent before + extent surface) = surface := by
      have sliced := slice_of_append before surface (after ++ text.drop maxTokenizeChars)
      rwa [capped] at sliced
    rwa [starts, ends, surfaceAt]
  · exact reads.counted.first
  · exact reads.counted.climbs
  · intro token mem
    have below := reads.counted.below token mem
    have few := reads.few
    have short : (capText text).length ≤ maxTokenizeChars := length_take_le _ _
    have bound : positionsPerChar * (capText text).length ≤ positionsPerChar * maxTokenizeChars :=
      Nat.mul_le_mul_left _ short
    have narrow : positionsPerChar * maxTokenizeChars < 2 ^ 32 := by decide
    omega
  · exact reads.originals
  · intro before c after split alphanumeric
    obtain ⟨token, mem, encloses⟩ := reads.covers before c after split alphanumeric
    rw [Nat.zero_add] at encloses
    exact ⟨token, mem, encloses⟩

end Soundness

section Partition

/-- The words of a window one after the other, from a character index on. -/
def consecutive (start : Nat) : List Text → List JiebaToken
  | [] => []
  | word :: rest => ⟨word, start, start + word.length⟩ :: consecutive (start + word.length) rest

theorem mem_consecutive {front : Text} {words : List Text} {token : JiebaToken}
    (mem : token ∈ consecutive front.length words) :
    ∃ before after, front ++ words.flatten = before ++ (token.word ++ after) ∧
      token.word ∈ words ∧ before.length = token.start ∧
      token.stop = token.start + token.word.length ∧ front.length ≤ token.start := by
  induction words generalizing front with
  | nil => cases mem
  | cons word words ih =>
    rcases mem_cons.1 mem with rfl | later
    · exact ⟨front, words.flatten, by simp, by simp, rfl, rfl, le_rfl⟩
    · rw [← length_append] at later
      obtain ⟨before, after, split, inWords, start, stop, le⟩ := ih later
      rw [length_append] at le
      exact ⟨before, after, by rw [← split]; simp, mem_cons_of_mem _ inWords, start, stop,
        by omega⟩

variable {words : List Text}

theorem le_of_mem_consecutive {start : Nat} {token : JiebaToken}
    (mem : token ∈ consecutive start words) : start ≤ token.start := by
  induction words generalizing start with
  | nil => cases mem
  | cons word words ih =>
    rcases mem_cons.1 mem with rfl | later
    · exact le_rfl
    · exact (Nat.le_add_right _ _).trans (ih later)

theorem pairwise_consecutive (some_ : ∀ word ∈ words, word ≠ []) (start : Nat) :
    (consecutive start words).Pairwise fun token later => token.start < later.start := by
  induction words generalizing start with
  | nil => exact List.Pairwise.nil
  | cons word words ih =>
    refine List.Pairwise.cons (fun later mem => ?_)
      (ih (fun other mem => some_ other (mem_cons_of_mem _ mem)) _)
    have long := length_pos_of_ne_nil (some_ word (by simp))
    have behind := le_of_mem_consecutive mem
    dsimp only
    omega

theorem exists_consecutive {start index : Nat} (low : start ≤ index)
    (high : index < start + words.flatten.length) :
    ∃ token ∈ consecutive start words, token.start ≤ index ∧ index < token.stop := by
  induction words generalizing start with
  | nil =>
    simp only [flatten_nil, length_nil] at high
    omega
  | cons word words ih =>
    by_cases inWord : index < start + word.length
    · exact ⟨_, mem_cons_self, low, inWord⟩
    · rw [flatten_cons, length_append] at high
      obtain ⟨token, mem, encloses⟩ := @ih (start + word.length) (by omega) (by omega)
      exact ⟨token, mem_cons_of_mem _ mem, encloses⟩

theorem segments_of_partition (some_ : ∀ word ∈ words, word ≠ []) :
    Segments words.flatten (consecutive 0 words) := by
  have found : ∀ token ∈ consecutive 0 words, ∃ before after,
      words.flatten = before ++ (token.word ++ after) ∧ token.word ∈ words ∧
      before.length = token.start ∧ token.stop = token.start + token.word.length := by
    intro token mem
    have inFront : token ∈ consecutive ([] : Text).length words := mem
    obtain ⟨before, after, split, inWords, start, stop, _⟩ := mem_consecutive inFront
    exact ⟨before, after, by simpa using split, inWords, start, stop⟩
  constructor
  · intro token mem
    obtain ⟨before, after, split, inWords, start, stop⟩ := found token mem
    have long := length_pos_of_ne_nil (some_ _ inWords)
    omega
  · intro token mem
    obtain ⟨before, after, split, inWords, start, stop⟩ := found token mem
    have total := congrArg length split
    simp only [length_append] at total
    omega
  · intro token mem
    obtain ⟨before, after, split, inWords, start, stop⟩ := found token mem
    rw [split, stop, ← start, take_length_add_append, drop_left, take_left]
  · intro index inside
    exact exists_consecutive (Nat.zero_le index) (by omega)
  · rw [List.Nodup, pairwise_map]
    refine (pairwise_consecutive some_ 0).imp fun earlier same => ?_
    exact absurd (congrArg Prod.fst same) earlier.ne

/-- A segmenter that finds one word in every window. -/
@[reducible] def wholeWindows : Jieba where
  tokenize window := consecutive 0 (if window.isEmpty then [] else [window])

@[reducible] def asciiCases : CaseTables where
  toLowercase c := [c.toLower]
  isUppercase := Char.isUpper
  isLowercase := Char.isLower
  isAlphanumeric c := Char.isAlphanum c || isCjk c
  isAlphabetic c := Char.isAlpha c || isCjk c
  isCased := Char.isAlpha
  isCaseIgnorable c := c = '.'

theorem segments_wholeWindows (window : Text) :
    Segments window (wholeWindows.tokenize window) := by
  cases window with
  | nil =>
    have none : ∀ word ∈ ([] : List Text), word ≠ [] := by simp
    exact segments_of_partition none
  | cons c window =>
    have one : ∀ word ∈ [c :: window], word ≠ [] := by simp
    have whole := segments_of_partition one
    rw [flatten_singleton] at whole
    exact whole

theorem isAlphanumeric_of_isWhitespace (c : Char) (space : isWhitespace c = true) :
    asciiCases.isAlphanumeric c = false := by
  have notCjk := isCjk_of_isWhitespace space
  simp only [isWhitespace, Bool.or_eq_true, Bool.and_eq_true, decide_eq_true_eq] at space
  have notAscii : Char.isAlphanum c = false := by
    rw [← Bool.not_eq_true]
    unfold Char.isAlphanum Char.isAlpha Char.isUpper Char.isLower Char.isDigit
    simp only [Bool.or_eq_true, Bool.and_eq_true, decide_eq_true_eq, ge_iff_le,
      UInt32.le_iff_toNat_le]
    simp [Char.toNat_val]
    omega
  change (Char.isAlphanum c || isCjk c) = false
  rw [notAscii, notCjk]
  rfl

/-- A mixed text in two scripts, read with its tokens. -/
theorem soundTokens_getUser :
    (@segmentText asciiCases wholeWindows "中 getUser".toList).map MixedToken.offsetTo =
        [3, 11, 11, 11] ∧
      @SoundTokens asciiCases "中 getUser".toList
        (@segmentText asciiCases wholeWindows "中 getUser".toList) :=
  ⟨by decide +kernel, @soundTokens_segmentText asciiCases wholeWindows segments_wholeWindows
    isAlphanumeric_of_isWhitespace "中 getUser".toList⟩

end Partition

end ContextEngine
