import PascalBlock.Proofs.Text.Longest

/-!
# Regular expressions

A regular expression has a language, and it has the ways in which it matches the front of a text, in
the order in which a backtracking matcher comes to them: what stands first in an alternative comes
first, and a repetition goes on before it stops. The match is the first way. A splitter `Follows` an
expression when it takes that match; it need not go back where all later ways are known to fail
(`Follows.behind_many`).
-/

namespace PascalBlock.Text

open scoped Computability

inductive Regex where
  | nothing
  | chars (p : Char → Bool)
  | literal (spelling : List Char)
  | seq (a b : Regex)
  | alt (a b : Regex)
  | star (a : Regex)

namespace Regex

/-- `a+` -/
def plus (a : Regex) : Regex := a.seq a.star

/-- `a?` -/
def optional (a : Regex) : Regex := a.alt nothing

def language : Regex → Language Char
  | nothing => 1
  | chars p => ofClass p
  | literal spelling => {spelling}
  | seq a b => a.language * b.language
  | alt a b => a.language + b.language
  | star a => a.language∗

/-! ## The order of the ways -/

/-- What was matched, and the text behind it. -/
abbrev Way := List Char × List Char

/-- One way in front of another. -/
def Way.after (x : List Char) : Way → Way := fun way => (x ++ way.1, way.2)

/-- The ways to repeat: once more and on from there, or no more. A round that takes nothing does not
count. -/
def repetitions (once : List Char → List Way) (cs : List Char) : List Way :=
  ((once cs).flatMap fun way =>
    if _h : way.2.length < cs.length then (repetitions once way.2).map (Way.after way.1) else []) ++
    [([], cs)]
termination_by cs.length

/-- The ways to match the front of a text, the preferred ones first. -/
def ways : Regex → List Char → List Way
  | nothing, cs => [([], cs)]
  | chars p, cs => (Splitter.one p cs).toList
  | literal spelling, cs => (Splitter.exactly spelling cs).toList
  | seq a b, cs => (a.ways cs).flatMap fun way => (b.ways way.2).map (Way.after way.1)
  | alt a b, cs => a.ways cs ++ b.ways cs
  | star a, cs => repetitions a.ways cs

/-- The match: the way that is preferred to all others. -/
def match? (r : Regex) (cs : List Char) : Option Way := (r.ways cs).head?

/-- The splitter takes the match. -/
def Follows (r : Regex) (a : Splitter) : Prop := ∀ cs, r.match? cs = a cs

open Splitter

variable {p : Char → Bool} {a b c : Regex} {f g : Splitter} {cs : List Char}

section
variable (p) (a b) (cs) (spelling : List Char)

@[simp] theorem ways_nothing : nothing.ways cs = [([], cs)] := rfl

@[simp] theorem ways_chars : (chars p).ways cs = (one p cs).toList := rfl

@[simp] theorem ways_literal : (literal spelling).ways cs = (exactly spelling cs).toList := rfl

theorem ways_seq : (a.seq b).ways cs =
    (a.ways cs).flatMap fun way => (b.ways way.2).map (Way.after way.1) := rfl

@[simp] theorem ways_alt : (a.alt b).ways cs = a.ways cs ++ b.ways cs := rfl

theorem ways_star : a.star.ways cs =
    ((a.ways cs).flatMap fun way =>
      if way.2.length < cs.length then (a.star.ways way.2).map (Way.after way.1) else []) ++
      [([], cs)] := repetitions.eq_1 a.ways cs

end

@[simp] theorem after_nil : Way.after [] = id := rfl

@[simp] theorem after_comp_after (x y : List Char) :
    Way.after x ∘ Way.after y = Way.after (x ++ y) := by
  funext way
  simp [Way.after]

/-- As a splitter takes one piece behind another. -/
theorem andThen_eq_bind (f g : Splitter) (cs : List Char) :
    f.andThen g cs = (f cs).bind fun way => (g way.2).map (Way.after way.1) := rfl

theorem match?_seq (a b : Regex) (cs : List Char) : (seq a b).match? cs =
    (a.ways cs).findSome? fun way => (b.match? way.2).map (Way.after way.1) := by
  simp [match?, ways_seq, List.head?_flatMap, List.head?_map]

theorem match?_seq_assoc (a b c : Regex) (cs : List Char) :
    ((a.seq b).seq c).match? cs = (a.seq (b.seq c)).match? cs := by
  rw [match?, match?]
  simp only [ways_seq, List.flatMap_assoc, List.flatMap_map, List.map_flatMap, List.map_map,
    after_comp_after]
  rfl

theorem Follows.assoc (h : Follows (a.seq (b.seq c)) f) : Follows ((a.seq b).seq c) f := fun cs =>
  (match?_seq_assoc a b c cs).trans (h cs)

theorem follows_nothing : Follows nothing fun cs => some ([], cs) := fun _ => rfl

theorem follows_chars (p : Char → Bool) : Follows (chars p) (one p) := by
  intro cs
  rw [match?, ways_chars, Option.head?_toList]

theorem follows_literal (spelling : List Char) : Follows (literal spelling) (exactly spelling) := by
  intro cs
  rw [match?, ways_literal, Option.head?_toList]

namespace Follows

theorem alt (ha : Follows a f) (hb : Follows b g) : Follows (a.alt b) (f.orElse g) := by
  intro cs
  have hf := ha cs
  rw [match?] at hf
  rw [match?, ways_alt, List.head?_append, hf, Splitter.orElse]
  cases f cs with
  | none => exact hb cs
  | some found => rfl

theorem optional (ha : Follows a f) : Follows a.optional f.optional := ha.alt follows_nothing

/-- Nothing has to be taken back from one character. -/
theorem behind_one (hb : Follows b g) : Follows ((chars p).seq b) ((one p).andThen g) := by
  intro cs
  rw [match?_seq, ways_chars, andThen_eq_bind]
  cases one p cs with
  | none => rfl
  | some found => simp [hb found.2]

/-- Nothing has to be taken back from a character that may be missing, where nothing goes on with
it. -/
theorem behind_optional (hb : Follows b g) (hg : ∀ c cs, p c = true → g (c :: cs) = none) :
    Follows ((chars p).optional.seq b) ((one p).optional.andThen g) := by
  intro cs
  rw [match?_seq, Regex.optional, ways_alt, ways_chars, ways_nothing, andThen_eq_bind]
  cases h : one p cs with
  | none => simp [optional_right h, hb cs]
  | some found =>
    obtain ⟨x, rest⟩ := found
    obtain ⟨d, hd, -, rfl⟩ := one_eq_some h
    simp only [optional_left h, Option.toList_some, List.singleton_append, List.findSome?_cons,
      List.findSome?_nil, Option.bind_some, hb rest, hb (d :: rest), hg d rest hd]
    cases g rest <;> rfl

end Follows

/-! ## Repetitions that can go on in one way only -/

theorem ways_star_once {x : List Char} (h : a.ways (x ++ cs) = [(x, cs)]) (hx : x ≠ []) :
    a.star.ways (x ++ cs) = (a.star.ways cs).map (Way.after x) ++ [([], x ++ cs)] := by
  have hlt : cs.length < (x ++ cs).length := by
    have hpos := List.length_pos_iff.2 hx
    rw [List.length_append]
    omega
  rw [ways_star, h, List.flatMap_singleton, if_pos hlt]

/-- One more round and what is matched behind it is preferred to going on with no more. -/
theorem match?_star_once {x : List Char} (h : a.ways (x ++ cs) = [(x, cs)]) (hx : x ≠ []) :
    (a.star.seq b).match? (x ++ cs) =
      (((a.star.seq b).match? cs).map (Way.after x)).or (b.match? (x ++ cs)) := by
  rw [match?_seq, match?_seq, ways_star_once h hx, List.findSome?_append, List.findSome?_map,
    List.map_findSome?]
  congr 1
  · refine congrArg (List.findSome? · _) (funext fun way => ?_)
    rw [Function.comp_apply, Function.comp_apply, Option.map_map, after_comp_after]
    rfl
  · simp

theorem ways_star_stops (h : a.ways cs = []) : a.star.ways cs = [([], cs)] := by
  rw [ways_star, h, List.flatMap_nil, List.nil_append]

theorem match?_star_stops (h : a.ways cs = []) : (a.star.seq b).match? cs = b.match? cs := by
  rw [match?_seq, ways_star_stops h]
  simp

theorem ways_chars_cons {d : Char} (hd : p d = true) :
    (chars p).ways ([d] ++ cs) = [([d], cs)] := by
  rw [List.singleton_append, ways_chars, one_cons hd, Option.toList_some]

theorem ways_chars_stops (h : Stops p cs) : (chars p).ways cs = [] := by
  rw [ways_chars, one_eq_none h, Option.toList_none]

theorem follows_many (p : Char → Bool) : Follows (chars p).star (many p) := by
  intro cs
  induction cs with
  | nil => rw [match?, ways_star_stops (ways_chars_stops (stops_nil p))]; rfl
  | cons d cs ih =>
    by_cases hd : p d = true
    · rw [match?] at ih
      rw [match?, ← List.singleton_append, ways_star_once (ways_chars_cons hd) (by simp),
        List.head?_append, List.head?_map, ih]
      simp [many, Way.after, hd]
    · rw [match?, ways_star_stops (ways_chars_stops (stops_cons.2 (by simpa using hd)))]
      simp [many, hd]

/-- Nothing has to be taken back from a run of a class, where nothing goes on inside of the class,
or where anything goes on. -/
theorem Follows.behind_many (hb : Follows b g)
    (hg : (∀ c cs, p c = true → g (c :: cs) = none) ∨ ∀ cs, (g cs).isSome) :
    Follows ((chars p).star.seq b) ((many p).andThen g) := by
  have hstop : ∀ {cs}, Stops p cs →
      ((chars p).star.seq b).match? cs = (many p).andThen g cs := by
    intro cs hcs
    have hmany : many p ([] ++ cs) = some ([], cs) := many_append (by simp) hcs
    rw [List.nil_append] at hmany
    rw [match?_star_stops (ways_chars_stops hcs), hb, andThen_eq_bind, hmany]
    simp
  intro cs
  induction cs with
  | nil => exact hstop (stops_nil p)
  | cons d cs ih =>
    by_cases hd : p d = true
    · have hlonger : (many p).andThen g (d :: cs) =
          ((many p).andThen g cs).map (Way.after [d]) := by
        simp only [andThen_eq_bind, many, List.takeWhile_cons_of_pos hd,
          List.dropWhile_cons_of_pos hd, Option.bind_some, Option.map_map]
        cases g (cs.dropWhile p) <;> simp [Way.after]
      rw [← List.singleton_append, match?_star_once (ways_chars_cons hd) (by simp), ih, hb,
        List.singleton_append, hlonger]
      rcases hg with hg | hg
      · rw [hg d cs hd, Option.or_none]
      · have hsome : ((many p).andThen g cs).isSome := by
          simp [andThen_eq_bind, many, hg]
        obtain ⟨found, hfound⟩ := Option.isSome_iff_exists.1 hsome
        rw [hfound, Option.map_some, Option.some_or]
    · exact hstop (stops_cons.2 (by simpa using hd))

/-! ## The characters of its words -/

/-- No word of the expression has a character outside of the class. -/
def Within (p : Char → Prop) : Regex → Prop
  | nothing => True
  | chars q => ∀ c, q c = true → p c
  | literal spelling => ∀ c ∈ spelling, p c
  | seq a b | alt a b => a.Within p ∧ b.Within p
  | star a => a.Within p

theorem Within.of_mem {p : Char → Prop} {x : List Char} : ∀ {r : Regex}, r.Within p →
    x ∈ r.language → ∀ c ∈ x, p c
  | nothing, _, hx => by
    rw [(Language.mem_one x).1 hx]
    exact List.forall_mem_nil p
  | chars q, h, hx => by
    obtain ⟨c, hc, rfl⟩ := hx
    exact List.forall_mem_singleton.2 (h c hc)
  | literal spelling, h, hx => by
    obtain rfl := Set.mem_singleton_iff.1 hx
    exact h
  | seq a b, h, hx => by
    obtain ⟨y, hy, z, hz, rfl⟩ := Language.mem_mul.1 hx
    exact List.forall_mem_append.2 ⟨h.1.of_mem hy, h.2.of_mem hz⟩
  | alt a b, h, hx => (Language.mem_add _ _ x).1 hx |>.elim h.1.of_mem h.2.of_mem
  | star a, h, hx => by
    have ha : a.Within p := h
    obtain ⟨ys, rfl, hys⟩ := Language.mem_kstar.1 hx
    intro c hc
    obtain ⟨y, hy, hcy⟩ := List.mem_flatten.1 hc
    exact ha.of_mem (hys y hy) c hcy

end Regex

end PascalBlock.Text
