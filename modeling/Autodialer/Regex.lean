import Mathlib.Data.List.TakeWhile

/-!
# Basic regular expressions (`regex.c`)

`re_regex` matches an expression of literals and character classes against a
string. A class is followed by how often it is repeated, and takes as much as it
can without ever giving anything back; a literal that does not match starts the
search again one character further on. A string is the list of its bytes, one
character each.

* `Reads`: what an expression says, as a list of literals and predicates.
* `itemsAt_append`: a class takes what stands before the first character outside it.
* `reRegex_skip`: an expression that starts with a literal is looked for where the
  literal is.
-/

namespace Autodialer

/-- What is asked of the characters of a text is decided along the text: all characters are too
many to try. -/
instance decidableForallChar {P : Char → Prop} [DecidablePred P] (text : List Char) :
    Decidable (∀ c ∈ text, P c) :=
  List.decidableBAll P text

/-- `expr_match` -/
def exprMatch (chrv : List (Char × Char)) (c : Char) (neg : Bool) : Bool :=
  (chrv.any fun chr => decide (chr.1 ≤ c) && decide (c ≤ chr.2)) != neg

/-- Where `re_regex` is in its expression. `fm` says that it is in a class, `ec` that the class
has ended and the repetition follows, `eesc` that a backslash came before. `chrv` has the newest
range first, and `range` holds the lower bound of one that is not complete. -/
structure RegexState where
  fm : Bool := false
  range : Option Char := none
  ec : Bool := false
  neg : Bool := false
  qesc : Bool := false
  eesc : Bool := false
  chrv : List (Char × Char) := []

/-- The loop that takes characters of the class from the string, `nmax` at most: what it takes
and what it leaves. A class with quotes takes everything between two of them. -/
def classSpan (st : RegexState) : Bool → Bool → Option Nat → List Char → List Char × List Char
  | _, _, _, [] => ([], [])
  | _, _, some 0, p => ([], p)
  | quote, esc, nmax, c :: p =>
    let take := fun (quote esc : Bool) =>
      let (text, p') := classSpan st quote esc (nmax.map (· - 1)) p
      (c :: text, p')
    if st.qesc && esc then take quote false
    else if st.qesc && c = '\\' then take quote true
    else if st.qesc && c = '"' then take (!quote) esc
    else if st.qesc && quote then take quote esc
    else if exprMatch st.chrv c.toLower st.neg then take quote esc
    else ([], c :: p)

/-- Quotes around what a class with quotes has taken are stripped. -/
def stripQuotes (st : RegexState) (text : List Char) : List Char :=
  if st.qesc && decide (1 < text.length) && text.head? == some '"' && text.getLast? == some '"' then
    text.tail.dropLast
  else text

/-- The repetitions: the least number and the greatest. -/
def repetition (ep : Char) : Option (Nat × Option Nat) :=
  if ep = '*' then some (0, none)
  else if ep = '+' then some (1, none)
  else if '1' ≤ ep ∧ ep ≤ '9' then some (ep.toNat - '0'.toNat, some (ep.toNat - '0'.toNat))
  else none

/-- A character of a class (`chr:`). -/
def RegexState.chr (st : RegexState) (ep : Char) : RegexState :=
  { st with range := none, chrv := (st.range.getD ep.toLower, ep.toLower) :: st.chrv }

/-- How an attempt to match at one place ends. -/
inductive RegexEnd
  /-- The search goes on one character further. -/
  | again
  /-- The search is over: it has failed, or these are the texts of the classes. -/
  | out (classes : Option (List (List Char)))

/-- The expression `ep` is matched against the string `p`. -/
def regexAt : List Char → RegexState → List Char → List (List Char) → RegexEnd
  | [], st, _, classes => .out (if st.fm then none else some classes)
  | ep :: rest, st, p, classes =>
    if ep = '\\' && !st.eesc then regexAt rest { st with eesc := true } p classes
    else if !st.fm then
      if ep = '[' && !st.eesc then regexAt rest { fm := true } p classes
      else
        match p with
        | [] => .out none
        | c :: p =>
          if ep.toLower ≠ c.toLower then .again
          else regexAt rest { st with eesc := false } p classes
    else if st.ec then
      match repetition ep with
      | none => .out none
      | some (nmin, nmax) =>
        let (text, p) := classSpan st false false nmax p
        let text := stripQuotes st text
        if text.length < nmin then .again
        -- the next class sets every field of the state anew
        else regexAt rest {} p (classes ++ [text])
    else if st.eesc then regexAt rest { st.chr ep with eesc := false } p classes
    else if ep = ']' then regexAt rest { st with ec := true } p classes
    else if ep = '~' && st.chrv.isEmpty then
      regexAt rest { st with qesc := true, neg := true } p classes
    else if ep = '^' && st.chrv.isEmpty then regexAt rest { st with neg := true } p classes
    else if ep = '-' && !st.chrv.isEmpty && st.range.isNone then
      regexAt rest { st with range := st.chrv.head?.map Prod.fst, chrv := st.chrv.tail } p classes
    else regexAt rest (st.chr ep) p classes

/-- `re_regex`: the texts of the classes, if the expression is found. -/
def reRegex (expr : List Char) : List Char → Option (List (List Char))
  | [] => if expr.isEmpty then some [] else none
  | c :: p =>
    match regexAt expr {} (c :: p) [] with
    | .again => reRegex expr p
    | .out classes => classes

/-! ## What an expression says -/

/-- A literal, or a class with its least number of characters. -/
inductive RegexItem
  | lit (x : Char)
  | many (nmin : Nat) (m : Char → Bool)

/-- What `regexAt` does with an expression that says `items`. -/
def itemsAt : List RegexItem → List Char → List (List Char) → RegexEnd
  | [], _, classes => .out (some classes)
  | .lit _ :: _, [], _ => .out none
  | .lit x :: items, c :: p, classes =>
    if x.toLower ≠ c.toLower then .again else itemsAt items p classes
  | .many nmin m :: items, p, classes =>
    if (p.takeWhile m).length < nmin then .again
    else itemsAt items (p.dropWhile m) (classes ++ [p.takeWhile m])

/-- The expression says `items`. -/
def Reads (expr : List Char) (items : List RegexItem) : Prop :=
  ∀ p classes, regexAt expr {} p classes = itemsAt items p classes

/-- Without quotes and without an upper bound a class takes all it can. -/
theorem classSpan_eq {st : RegexState} (plain : st.qesc = false) (p : List Char) :
    classSpan st false false none p =
      (p.takeWhile fun c => exprMatch st.chrv c.toLower st.neg,
        p.dropWhile fun c => exprMatch st.chrv c.toLower st.neg) := by
  induction p with
  | nil => rfl
  | cons c p ih =>
    rw [classSpan, List.takeWhile_cons, List.dropWhile_cons]
    · simp only [plain, Bool.false_and, Bool.false_eq_true, if_false, Option.map_none, ih]
      split <;> rfl
    · intro none'
      cases none'

namespace Reads

variable {ep : List Char} {items : List RegexItem}

theorem nil : Reads [] [] := fun _ _ => rfl

theorem lit {x : Char} (plain : x ≠ '\\' ∧ x ≠ '[') (rest : Reads ep items) :
    Reads (x :: ep) (.lit x :: items) := by
  intro p classes
  cases p with
  | nil => simp [regexAt, itemsAt, plain]
  | cons c p => simp [regexAt, itemsAt, plain, rest p classes]

/-- After a backslash any character is a literal. -/
theorem escaped {x : Char} (rest : Reads ep items) :
    Reads ('\\' :: x :: ep) (.lit x :: items) := by
  intro p classes
  cases p with
  | nil => simp [regexAt, itemsAt]
  | cons c p => simp [regexAt, itemsAt, rest p classes]

/-- A class whose text leads to the ranges `chrv`, taken to be negated or not, holds the
characters `m`. -/
theorem many (text : List Char) (chrv : List (Char × Char)) (neg : Bool) {q : Char} {nmin : Nat}
    {m : Char → Bool}
    (opens : ∀ ep p classes, regexAt (text ++ ep) {} p classes =
      regexAt ep { fm := true, ec := true, neg := neg, chrv := chrv } p classes)
    (repeats : repetition q = some (nmin, none))
    (holds : ∀ c, exprMatch chrv c.toLower neg = m c) (rest : Reads ep items) :
    Reads (text ++ q :: ep) (.many nmin m :: items) := by
  intro p classes
  have plain : q ≠ '\\' := by
    rintro rfl
    cases repeats
  have isM : (fun c => exprMatch chrv c.toLower neg) = m := funext holds
  rw [opens, itemsAt]
  simp only [regexAt, plain, decide_false, Bool.false_and, Bool.false_eq_true, if_false,
    Bool.not_true, if_true, repeats, classSpan_eq, stripQuotes, isM, rest _ _]

end Reads

/-! ## Characters without case -/

/-- Lower case is made of letters only. -/
theorem toLower_eq_iff {x c : Char} (plain : x.isAlpha = false) : c.toLower = x ↔ c = x := by
  obtain ⟨notUpper, notLower⟩ := Bool.or_eq_false_iff.mp plain
  have notUpper : ¬ (65 ≤ x.val.toNat ∧ x.val.toNat ≤ 90) := of_decide_eq_false notUpper
  have notLower : ¬ (97 ≤ x.val.toNat ∧ x.val.toNat ≤ 122) := by
    rintro ⟨least, most⟩
    have isLower : x.isLower = true :=
      Bool.and_eq_true_iff.mpr ⟨decide_eq_true least, decide_eq_true most⟩
    rw [isLower] at notLower
    cases notLower
  unfold Char.toLower
  split
  next upper =>
    have upper : 65 ≤ c.val.toNat ∧ c.val.toNat ≤ 90 := upper
    constructor
    · rintro rfl
      have raised : (c.val + 32).toNat = c.val.toNat + 32 := by
        rw [UInt32.toNat_add]
        exact Nat.mod_eq_of_lt (show c.val.toNat + 32 < 2 ^ 32 by omega)
      refine absurd ?_ notLower
      show 97 ≤ (c.val + 32).toNat ∧ (c.val + 32).toNat ≤ 122
      omega
    · rintro rfl
      exact absurd upper notUpper
  next => rfl

theorem exprMatch_chars (xs : List Char) (plain : ∀ x ∈ xs, x.isAlpha = false) (neg : Bool)
    (c : Char) : exprMatch (xs.map fun x => (x, x)) c.toLower neg = (xs.elem c != neg) := by
  unfold exprMatch
  congr 1
  rw [Bool.eq_iff_iff, List.any_map, List.any_eq_true, List.elem_iff]
  constructor
  · rintro ⟨x, mem, within⟩
    simp only [Function.comp_apply, Bool.and_eq_true, decide_eq_true_eq] at within
    rw [(toLower_eq_iff (plain x mem)).mp (Char.le_antisymm within.2 within.1)]
    exact mem
  · intro mem
    refine ⟨c, mem, ?_⟩
    rw [(toLower_eq_iff (plain c mem)).mpr rfl]
    simp

theorem exprMatch_digit (c : Char) : exprMatch [('0', '9')] c.toLower false = c.isDigit := by
  simp only [exprMatch, List.any_cons, List.any_nil, Bool.or_false, Bool.bne_false, Char.isDigit,
    Char.le_def]
  unfold Char.toLower
  split
  next upper =>
    simp only [UInt32.le_iff_toNat_le] at upper
    rw [Bool.eq_iff_iff]
    simp only [UInt32.le_iff_toNat_le, UInt32.toNat_add, Bool.and_eq_true, decide_eq_true_eq]
    simp at upper ⊢
    omega
  next => rfl

/-! ## What an expression takes -/

variable {items : List RegexItem} {classes texts : List (List Char)} {m : Char → Bool}
  {nmin : Nat} {x c : Char} {a b p s : List Char} {expr : List Char}

theorem itemsAt_lit : itemsAt (.lit x :: items) (x :: p) classes = itemsAt items p classes := by
  simp [itemsAt]

/-- A class takes what stands before the first character outside it. -/
theorem itemsAt_append (inside : ∀ c ∈ a, m c = true) (stop : ∀ c ∈ b.head?, m c = false)
    (enough : nmin ≤ a.length) :
    itemsAt (.many nmin m :: items) (a ++ b) classes = itemsAt items b (classes ++ [a]) := by
  have nothing : b.takeWhile m = [] ∧ b.dropWhile m = b := by
    cases b with
    | nil => exact ⟨rfl, rfl⟩
    | cons c b =>
      have out : ¬ m c = true := by rw [stop c rfl]; exact Bool.false_ne_true
      exact ⟨List.takeWhile_cons_of_neg out, List.dropWhile_cons_of_neg out⟩
  rw [itemsAt, List.takeWhile_append_of_pos inside, List.dropWhile_append_of_pos inside, nothing.1,
    nothing.2, List.append_nil, if_neg (Nat.not_lt.mpr enough)]

theorem itemsAt_many_out (out : itemsAt (.many nmin m :: items) p classes = .out (some texts)) :
    itemsAt items (p.dropWhile m) (classes ++ [p.takeWhile m]) = .out (some texts) := by
  rw [itemsAt] at out
  split at out
  · cases out
  · exact out

theorem itemsAt_lit_out (out : itemsAt (.lit x :: items) p classes = .out (some texts)) :
    ∃ c p', p = c :: p' ∧ itemsAt items p' classes = .out (some texts) := by
  cases p with
  | nil => cases out
  | cons c p =>
    rw [itemsAt] at out
    split at out
    · cases out
    · exact ⟨c, p, rfl, out⟩

/-- A match at the start of the string is the result. -/
theorem reRegex_found (reads : Reads expr items) (nonempty : s ≠ [])
    (found : itemsAt items s [] = .out (some texts)) : reRegex expr s = some texts := by
  cases s with
  | nil => exact absurd rfl nonempty
  | cons c s => rw [reRegex, reads, found]

/-- An expression that starts with a literal is looked for where the literal is. -/
theorem reRegex_skip (reads : Reads expr (.lit x :: items))
    (off : ∀ c ∈ a, x.toLower ≠ c.toLower) : reRegex expr (a ++ b) = reRegex expr b := by
  induction a with
  | nil => rfl
  | cons c a ih =>
    rw [List.cons_append, reRegex, reads, itemsAt, if_pos (off c List.mem_cons_self)]
    exact ih fun c mem => off c (List.mem_cons_of_mem _ mem)

theorem reRegex_nil (reads : Reads expr (.lit x :: items)) : reRegex expr [] = none := by
  cases expr with
  | nil => cases reads [] []
  | cons ep expr => rfl

/-- What is found is found at some place in the string. -/
theorem reRegex_some (reads : Reads expr items) (nonempty : expr ≠ [])
    (found : reRegex expr s = some texts) : ∃ p, itemsAt items p [] = .out (some texts) := by
  induction s with
  | nil => simp [reRegex, nonempty] at found
  | cons c s ih =>
    rw [reRegex, reads] at found
    split at found
    · exact ih found
    next out => exact ⟨c :: s, by rw [out, found]⟩

end Autodialer
