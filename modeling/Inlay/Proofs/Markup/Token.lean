import Inlay.Proofs.Markup.Matching
import Inlay.Proofs.Markup.Scan

/-!
# Pages as lists of tokens

A page whose less-than signs all belong to tags is a list of tokens: plain text, opening tags and closing
tags. On such a page scanning and matching work token by token.

* `Token` — a piece of a page, and `Token.write`, `writeAll` for its text.
* `Token.IsClean` — the token is read as what it is.
* `Token.opens`, `depthAfter`, `splitClosing` — counting tags of one name from left to right.
* `tagsOf` — all tags of a text, opening and closing.

Main statements: `scanFrom_writeAll_opening`, `exists_of_mem_scanFrom_writeAll` (the scan of a page finds
its opening tags), `closingFrom_writeAll` (matching counts tokens), `tagsOf_writeAll` (no tag of a page is
lost, and none is made up).
-/

namespace Inlay.Markup

/-- A piece of a page. -/
inductive Token where
  | text (t : Text)
  | opening (name attributes : Text)
  | closing (name : Text)
  deriving DecidableEq, Repr

namespace Token

/-- The token as it is written. -/
def write : Token → Text
  | text t => t
  | opening name attributes => Tag.opening name attributes
  | closing name => Tag.closing name

/-- The token is read as what it is: plain text has no less-than sign, and a tag has a name and no
less-than sign inside. -/
def IsClean : Token → Prop
  | text t => '<' ∉ t
  | opening name attributes => Tag.IsOpening name attributes ∧ '<' ∉ attributes
  | closing name => isTagName name = true

/-- The name of an opening tag. -/
def openingName? : Token → Option Text
  | opening name _ => some name
  | _ => none

/-- Whether the token is a tag, opening or closing, whose name is one of `names`. -/
def isTagIn (names : Text → Bool) : Token → Bool
  | text _ => false
  | opening name _ => names name
  | closing name => names name

/-- Whether the token counts as an opening tag called `name`. -/
def opens (name : Text) : Token → Bool
  | opening n attributes => n = name && attributes.head?.all Text.isBlank
  | _ => false

end Token

theorem Token.opens_opening_iff {name n attributes : Text} :
    Token.opens name (.opening n attributes) = true ↔
      n = name ∧ attributes.head?.all Text.isBlank = true := by
  unfold Token.opens
  rw [Bool.and_eq_true, decide_eq_true_eq]

/-- The text of a page. -/
def writeAll (tokens : List Token) : Text := tokens.flatMap Token.write

@[simp] theorem writeAll_nil : writeAll [] = [] := rfl

@[simp] theorem writeAll_cons (token : Token) (tokens : List Token) :
    writeAll (token :: tokens) = token.write ++ writeAll tokens := rfl

@[simp] theorem writeAll_append (ts us : List Token) :
    writeAll (ts ++ us) = writeAll ts ++ writeAll us := List.flatMap_append

/-! ## Characters of tags -/

theorem isBlank_of_isTagChar {c : Char} (h : isTagChar c = true) : Text.isBlank c = false := by
  have hcases : c.isAlphanum = true ∨ c = '-' ∨ c ∈ foldedLetters := by
    simpa [isTagChar, isNameChar, or_assoc] using h
  rcases hcases with hc | rfl | hc
  · change (decide (65 ≤ c.val ∧ c.val ≤ 90) || (decide (97 ≤ c.val) && decide (c.val ≤ 122)) ||
      (decide (48 ≤ c.val) && decide (c.val ≤ 57))) = true at hc
    simp only [Bool.or_eq_true, Bool.and_eq_true, decide_eq_true_eq, UInt32.le_iff_toNat_le] at hc
    have hrange : ((65 ≤ c.toNat ∧ c.toNat ≤ 90) ∨ (97 ≤ c.toNat ∧ c.toNat ≤ 122)) ∨
        (48 ≤ c.toNat ∧ c.toNat ≤ 57) := hc
    unfold Text.isBlank
    simp only [Bool.or_eq_false_iff, Bool.and_eq_false_iff, decide_eq_false_iff_not,
      beq_eq_false_iff_ne]
    omega
  · decide
  · unfold foldedLetters at hc
    simp only [List.mem_cons, List.not_mem_nil, or_false] at hc
    rcases hc with rfl | rfl | rfl | rfl <;> decide

theorem isTagChar_lt : isTagChar '<' = false := by decide

theorem not_lt_of_isTagName {name : Text} (h : isTagName name = true) : '<' ∉ name := by
  intro hmem
  have := isTagChar_of_isTagName h _ hmem
  rw [isTagChar_lt] at this
  cases this

theorem head_ne_slash {name u v : Text} (h : isTagName name = true) : name ++ u ≠ '/' :: v := by
  cases name with
  | nil => simp [isTagName] at h
  | cons c rest =>
    intro heq
    obtain ⟨rfl, -⟩ := List.cons.inj heq
    simp only [isTagName, Bool.and_eq_true] at h
    exact absurd h.1 (by decide)

/-- A tag name ends where the first other character stands. -/
theorem tagName_append_inj {a b u v : Text} {x y : Char} (ha : isTagName a = true)
    (hb : isTagName b = true) (hx : isTagChar x = false) (hy : isTagChar y = false)
    (h : a ++ x :: u = b ++ y :: v) : a = b ∧ x = y ∧ u = v :=
  Text.append_cons_inj (isTagChar_of_isTagName ha) hx (isTagChar_of_isTagName hb) hy h

/-! ## Scanning tokens -/

namespace Tag

theorem IsClosed.append {t u : Text} (ht : IsClosed t) (hu : IsClosed u) : IsClosed (t ++ u) := by
  induction t with
  | nil => exact hu
  | cons c t ih =>
    rw [isClosed_cons] at ht
    rw [List.cons_append, isClosed_cons]
    refine ⟨?_, ih ht.2⟩
    intro hc
    exact List.mem_append_left _ (ht.1 hc)

theorem isClosed_tag {t : Text} (h : '<' ∉ t) : IsClosed ('<' :: (t ++ ['>'])) := by
  rw [isClosed_cons]
  refine ⟨fun _ => by simp, isClosed_of_not_mem ?_⟩
  simpa using h

theorem scanFrom_of_not_mem {t : Text} (h : '<' ∉ t) (i : Nat) : scanFrom i t = [] := by
  induction t generalizing i with
  | nil => rw [scanFrom]
  | cons c t ih =>
    simp only [List.mem_cons, not_or] at h
    rw [scanFrom_of_ne (Ne.symm h.1), ih h.2]

theorem scanFrom_closing {name : Text} (h : isTagName name = true) (i : Nat) :
    scanFrom i (closing name) = [] := by
  unfold closing
  rw [scanFrom_of_read?_none (by rfl)]
  apply scanFrom_of_not_mem
  simpa using not_lt_of_isTagName h

end Tag

theorem isClosed_write {token : Token} (h : token.IsClean) : Tag.IsClosed token.write := by
  cases token with
  | text t => exact Tag.isClosed_of_not_mem h
  | opening name attributes =>
    apply Tag.isClosed_tag
    rw [List.mem_append, not_or]
    exact ⟨not_lt_of_isTagName h.1.isName, h.2⟩
  | closing name =>
    have hlt : '<' ∉ '/' :: name := by simpa using not_lt_of_isTagName h
    exact Tag.isClosed_tag hlt

theorem isClosed_writeAll {ts : List Token} (h : ∀ t ∈ ts, t.IsClean) :
    Tag.IsClosed (writeAll ts) := by
  induction ts with
  | nil => exact Tag.isClosed_nil
  | cons t ts ih =>
    rw [writeAll_cons]
    exact (isClosed_write (h t (List.mem_cons_self ..))).append
      (ih fun u hu => h u (List.mem_cons_of_mem _ hu))

/-- The scan of a page goes over the tokens from left to right. -/
theorem scanFrom_writeAll_cons {token : Token} (h : token.IsClean) (i : Nat) (u : Text) :
    Tag.scanFrom i (token.write ++ u) =
      (match token with
        | .opening name attributes => [⟨i, i + token.write.length, name, attributes⟩]
        | _ => []) ++ Tag.scanFrom (i + token.write.length) u := by
  rw [Tag.scanFrom_append (isClosed_write h)]
  congr 1
  cases token with
  | text t => exact Tag.scanFrom_of_not_mem h i
  | opening name attributes =>
    have := Tag.scanFrom_opening h.1 i []
    rw [List.append_nil] at this
    unfold Token.write
    rw [this, Tag.scanFrom]
  | closing name => exact Tag.scanFrom_closing h i

theorem map_name_scanFrom_writeAll {ts : List Token} (h : ∀ t ∈ ts, t.IsClean) (i : Nat) :
    (Tag.scanFrom i (writeAll ts)).map (·.name) = ts.filterMap Token.openingName? := by
  induction ts generalizing i with
  | nil =>
    rw [writeAll_nil, Tag.scanFrom]
    rfl
  | cons t ts ih =>
    rw [writeAll_cons, scanFrom_writeAll_cons (h t (List.mem_cons_self ..)), List.map_append,
      ih fun u hu => h u (List.mem_cons_of_mem _ hu)]
    cases t <;> rfl

/-- A tag of the scan is one of the opening tags, and stands where that is written. -/
theorem exists_of_mem_scanFrom_writeAll {ts : List Token} (h : ∀ t ∈ ts, t.IsClean) {i : Nat}
    {tag : Tag} (htag : tag ∈ Tag.scanFrom i (writeAll ts)) :
    ∃ before after, ts = before ++ .opening tag.name tag.attributes :: after ∧
      tag.stop = i + (writeAll (before ++ [.opening tag.name tag.attributes])).length := by
  induction ts generalizing i with
  | nil =>
    rw [writeAll_nil, Tag.scanFrom] at htag
    cases htag
  | cons t ts ih =>
    rw [writeAll_cons, scanFrom_writeAll_cons (h t (List.mem_cons_self ..))] at htag
    rcases List.mem_append.mp htag with hfirst | hrest
    · cases t with
      | opening name attributes =>
        obtain rfl := List.mem_singleton.mp hfirst
        exact ⟨[], ts, rfl, by simp⟩
      | text | closing => cases hfirst
    · obtain ⟨before, after, rfl, hstop⟩ := ih (fun u hu => h u (List.mem_cons_of_mem _ hu)) hrest
      refine ⟨t :: before, after, rfl, ?_⟩
      rw [hstop, List.cons_append, writeAll_cons, List.length_append]
      omega

/-! ## Matching tokens -/

/-- Breaks tokens at the closing tag that matches `depth + 1` open tags called `name`. -/
def splitClosing (name : Text) : Nat → List Token → Option (List Token × List Token)
  | _, [] => none
  | depth, token :: rest =>
    if token.opens name then
      (splitClosing name (depth + 1) rest).map fun parts => (token :: parts.1, parts.2)
    else if token = .closing name then
      match depth with
      | 0 => some ([], rest)
      | depth + 1 => (splitClosing name depth rest).map fun parts => (token :: parts.1, parts.2)
    else
      (splitClosing name depth rest).map fun parts => (token :: parts.1, parts.2)

/-- The number of open tags called `name` after a token, if there have been `depth` before. -/
def depthAfter (name : Text) (depth : Nat) (t : Token) : Nat :=
  if t.opens name then depth + 1 else if t = .closing name then depth - 1 else depth

theorem depthAfter_text (name : Text) (depth : Nat) (t : Text) : depthAfter name depth (.text t) = depth :=
  rfl

theorem depthAfter_opening (name : Text) (depth : Nat) (n attributes : Text) :
    depthAfter name depth (.opening n attributes) =
      if Token.opens name (.opening n attributes) then depth + 1 else depth := by
  unfold depthAfter
  rw [if_neg (show ¬Token.opening n attributes = .closing name by simp)]

theorem depthAfter_closing (name : Text) (depth : Nat) (n : Text) :
    depthAfter name depth (.closing n) = if n = name then depth - 1 else depth := by
  unfold depthAfter
  rw [if_neg (show ¬Token.opens name (.closing n) = true from Bool.false_ne_true)]
  simp only [Token.closing.injEq]

theorem splitClosing_cons {name : Text} {depth : Nat} {t : Token} {ts : List Token}
    (h : ¬(t = .closing name ∧ depth = 0)) :
    splitClosing name depth (t :: ts) =
      (splitClosing name (depthAfter name depth t) ts).map fun parts => (t :: parts.1, parts.2) := by
  unfold depthAfter
  conv => lhs; unfold splitClosing
  split
  · rfl
  · split
    · rename_i ht
      cases depth with
      | zero => exact absurd ⟨ht, rfl⟩ h
      | succ depth => rfl
    · rfl

theorem append_of_splitClosing {name : Text} {depth : Nat} {ts body after : List Token}
    (h : splitClosing name depth ts = some (body, after)) :
    ts = body ++ .closing name :: after := by
  induction ts generalizing depth body with
  | nil => cases h
  | cons token rest ih =>
    have later {d : Nat} (h : (splitClosing name d rest).map (fun parts => (token :: parts.1, parts.2)) =
        some (body, after)) : token :: rest = body ++ .closing name :: after := by
      obtain ⟨⟨body', after'⟩, hparts, heq⟩ := Option.map_eq_some_iff.mp h
      cases heq
      rw [ih hparts, List.cons_append]
    unfold splitClosing at h
    split at h
    · exact later h
    · split at h
      · rename_i htoken
        split at h
        · cases h
          rw [htoken, List.nil_append]
        · exact later h
      · exact later h

theorem opensAt_opening {name n attributes : Text} (hname : isTagName name = true)
    (h : Tag.IsOpening n attributes) (u : Text) :
    opensAt name (Tag.opening n attributes ++ u) = Token.opens name (.opening n attributes) := by
  rw [Bool.eq_iff_iff, opensAt_iff, Token.opens_opening_iff]
  unfold Tag.opening
  constructor
  · rintro ⟨c, after, heq, hc⟩
    have hctag : isTagChar c = false := by
      rcases hc with rfl | hc
      · exact Tag.isTagChar_gt
      · cases htag : isTagChar c with
        | false => rfl
        | true =>
          rw [isBlank_of_isTagChar htag] at hc
          cases hc
    have heq' : n ++ (attributes ++ '>' :: u) = name ++ c :: after := by
      simpa using heq
    cases attributes with
    | nil =>
      obtain ⟨rfl, -, -⟩ := tagName_append_inj h.isName hname Tag.isTagChar_gt hctag heq'
      exact ⟨rfl, rfl⟩
    | cons d attributes =>
      have hd : isTagChar d = false := by simpa [endsName] using h.endsName
      obtain ⟨rfl, rfl, -⟩ := tagName_append_inj h.isName hname hd hctag heq'
      refine ⟨rfl, ?_⟩
      rcases hc with rfl | hc
      · exact absurd (List.mem_cons_self ..) h.not_mem
      · simpa using hc
  · rintro ⟨rfl, hspaced⟩
    cases attributes with
    | nil => exact ⟨'>', u, by simp, .inl rfl⟩
    | cons d attributes => exact ⟨d, attributes ++ '>' :: u, by simp, .inr (by simpa using hspaced)⟩

theorem closesAt_opening {n : Text} (h : isTagName n = true) (attributes name u : Text) :
    closesAt name (Tag.opening n attributes ++ u) = false := by
  rw [Bool.eq_false_iff, ne_eq, closesAt_iff]
  rintro ⟨after, heq⟩
  simp only [Tag.opening, Tag.closing, List.cons_append, List.cons.injEq, true_and,
    List.append_assoc] at heq
  exact head_ne_slash h heq

theorem opensAt_closing {name : Text} (hname : isTagName name = true) (n u : Text) :
    opensAt name (Tag.closing n ++ u) = false := by
  rw [Bool.eq_false_iff, ne_eq, opensAt_iff]
  rintro ⟨c, after, heq, -⟩
  simp only [Tag.closing, List.cons_append, List.cons.injEq, true_and] at heq
  exact head_ne_slash hname heq.symm

theorem closesAt_closing {name n : Text} (hname : isTagName name = true) (hn : isTagName n = true)
    (u : Text) : closesAt name (Tag.closing n ++ u) = decide (n = name) := by
  rw [Bool.eq_iff_iff, closesAt_iff, decide_eq_true_eq]
  constructor
  · rintro ⟨after, heq⟩
    simp only [Tag.closing, List.cons_append, List.cons.injEq, true_and, List.append_assoc] at heq
    exact (tagName_append_inj hn hname Tag.isTagChar_gt Tag.isTagChar_gt heq).1
  · rintro rfl
    exact ⟨u, rfl⟩

/-! Counting goes on in one of three ways. -/

section

variable {name rest : Text} {c : Char}

theorem closingFrom_of_opensAt (h : opensAt name (c :: rest) = true) (depth i : Nat) :
    closingFrom name depth 0 i (c :: rest) =
      closingFrom name (depth + 1) name.length (i + 1) rest := by
  simp only [closingFrom, h, if_true]

theorem closingFrom_of_closesAt (ho : opensAt name (c :: rest) = false)
    (hc : closesAt name (c :: rest) = true) (depth i : Nat) :
    closingFrom name depth 0 i (c :: rest) =
      match depth with
      | 0 => some i
      | depth + 1 => closingFrom name depth (name.length + 2) (i + 1) rest := by
  cases depth <;> simp only [closingFrom, ho, hc, Bool.false_eq_true, if_false, if_true]

theorem closingFrom_of_neither (ho : opensAt name (c :: rest) = false)
    (hc : closesAt name (c :: rest) = false) (depth i : Nat) :
    closingFrom name depth 0 i (c :: rest) = closingFrom name depth 0 (i + 1) rest := by
  simp only [closingFrom, ho, hc, Bool.false_eq_true, if_false]

end

theorem closingFrom_of_not_mem {t : Text} (h : '<' ∉ t) (name : Text) (depth i : Nat) (u : Text) :
    closingFrom name depth 0 i (t ++ u) = closingFrom name depth 0 (i + t.length) u := by
  induction t generalizing i with
  | nil => rfl
  | cons c t ih =>
    simp only [List.mem_cons, not_or] at h
    have hopen : opensAt name (c :: (t ++ u)) = false := by
      rw [Bool.eq_false_iff, ne_eq, opensAt_iff]
      rintro ⟨d, after, heq, -⟩
      exact h.1 (List.cons.inj heq).1.symm
    have hclose : closesAt name (c :: (t ++ u)) = false := by
      rw [Bool.eq_false_iff, ne_eq, closesAt_iff]
      rintro ⟨after, heq⟩
      exact h.1 (List.cons.inj heq).1.symm
    rw [List.cons_append, closingFrom_of_neither hopen hclose, ih h.2, List.length_cons,
      show i + 1 + t.length = i + (t.length + 1) by omega]

/-- What belongs to a counted tag is passed over. -/
theorem closingFrom_passed (name t : Text) (depth i : Nat) (u : Text) :
    closingFrom name depth t.length i (t ++ u) = closingFrom name depth 0 (i + t.length) u := by
  induction t generalizing i with
  | nil => rfl
  | cons c t ih =>
    have hstep : closingFrom name depth (t.length + 1) i (c :: (t ++ u)) =
        closingFrom name depth t.length (i + 1) (t ++ u) := rfl
    rw [List.cons_append, List.length_cons, hstep, ih,
      show i + 1 + t.length = i + (t.length + 1) by omega]

theorem closingFrom_opening {name n attributes : Text} (hname : isTagName name = true)
    (h : Tag.IsOpening n attributes) (hlt : '<' ∉ attributes) (depth i : Nat) (u : Text) :
    closingFrom name depth 0 i (Tag.opening n attributes ++ u) =
      closingFrom name (if Token.opens name (.opening n attributes) then depth + 1 else depth) 0
        (i + (Tag.opening n attributes).length) u := by
  have hopens := opensAt_opening hname h u
  have hcloses := closesAt_opening h.isName attributes name u
  rw [Tag.length_opening]
  rw [Tag.opening_append] at hopens hcloses ⊢
  cases hcount : Token.opens name (.opening n attributes) with
  | true =>
    obtain ⟨rfl, -⟩ := Token.opens_opening_iff.mp hcount
    have hrest : '<' ∉ attributes ++ ['>'] := by simpa using hlt
    rw [closingFrom_of_opensAt (hopens.trans hcount),
      show n ++ attributes ++ '>' :: u = n ++ ((attributes ++ ['>']) ++ u) by simp,
      closingFrom_passed, closingFrom_of_not_mem hrest, List.length_append, List.length_singleton,
      if_pos rfl, show i + 1 + n.length + (attributes.length + 1) =
        i + (n.length + attributes.length + 2) by omega]
  | false =>
    have hrest : '<' ∉ n ++ attributes ++ ['>'] := by
      simpa using ⟨not_lt_of_isTagName h.isName, hlt⟩
    rw [closingFrom_of_neither (hopens.trans hcount) hcloses,
      show n ++ attributes ++ '>' :: u = (n ++ attributes ++ ['>']) ++ u by simp,
      closingFrom_of_not_mem hrest, if_neg Bool.false_ne_true]
    simp only [List.length_append, List.length_singleton]
    rw [show i + 1 + (n.length + attributes.length + 1) =
      i + (n.length + attributes.length + 2) by omega]

theorem closingFrom_closing {name n : Text} (hname : isTagName name = true)
    (hn : isTagName n = true) (depth i : Nat) (u : Text) :
    closingFrom name depth 0 i (Tag.closing n ++ u) =
      if n = name then
        match depth with
        | 0 => some i
        | depth + 1 => closingFrom name depth 0 (i + (Tag.closing n).length) u
      else closingFrom name depth 0 (i + (Tag.closing n).length) u := by
  have hopens := opensAt_closing hname n u
  have hcloses := closesAt_closing hname hn u
  have hshape : Tag.closing n ++ u = '<' :: (('/' :: (n ++ ['>'])) ++ u) := rfl
  have hlen : ('/' :: (n ++ ['>'])).length = n.length + 2 := by simp
  rw [hshape] at hopens hcloses ⊢
  rw [length_closing]
  split
  · rename_i heq
    subst heq
    rw [closingFrom_of_closesAt hopens (by rw [hcloses]; simp)]
    cases depth with
    | zero => rfl
    | succ depth =>
      dsimp only
      rw [← hlen, closingFrom_passed, hlen, show i + 1 + (n.length + 2) = i + (n.length + 3) by omega]
  · rename_i hne
    have hrest : '<' ∉ '/' :: (n ++ ['>']) := by simpa using not_lt_of_isTagName hn
    rw [closingFrom_of_neither hopens (by rw [hcloses]; simpa using hne),
      closingFrom_of_not_mem hrest, hlen, show i + 1 + (n.length + 2) = i + (n.length + 3) by omega]

/-- **The matching closing tag is found by counting tokens.** -/
theorem closingFrom_writeAll {name : Text} (hname : isTagName name = true) {ts : List Token}
    (h : ∀ t ∈ ts, t.IsClean) (depth i : Nat) :
    closingFrom name depth 0 i (writeAll ts) =
      (splitClosing name depth ts).map fun parts => i + (writeAll parts.1).length := by
  induction ts generalizing depth i with
  | nil => rfl
  | cons token ts ih =>
    have hts : ∀ t ∈ ts, t.IsClean := fun t ht => h t (List.mem_cons_of_mem _ ht)
    have htoken := h token (List.mem_cons_self ..)
    have later (d : Nat) : closingFrom name d 0 (i + token.write.length) (writeAll ts) =
        ((splitClosing name d ts).map fun parts => (token :: parts.1, parts.2)).map
          fun parts => i + (writeAll parts.1).length := by
      rw [ih hts, Option.map_map]
      congr 1
      funext parts
      simp only [Function.comp_apply, writeAll_cons, List.length_append]
      omega
    rw [writeAll_cons]
    unfold splitClosing
    cases token with
    | text t =>
      rw [if_neg (by simp [Token.opens]), if_neg (by simp), ← later]
      exact closingFrom_of_not_mem htoken name depth i (writeAll ts)
    | opening n attributes =>
      unfold Token.write at later ⊢
      rw [closingFrom_opening hname htoken.1 htoken.2, later]
      split
      · rfl
      · rw [if_neg (by simp)]
    | closing n =>
      unfold Token.write at later ⊢
      rw [closingFrom_closing hname htoken, show Token.opens name (.closing n) = false from rfl]
      simp only [Bool.false_eq_true, if_false]
      by_cases hn : n = name
      · rw [if_pos hn, if_pos (by rw [hn])]
        cases depth with
        | zero => rfl
        | succ depth => exact later depth
      · rw [if_neg hn, if_neg (by simpa using hn)]
        exact later depth

/-! ## The tags of a text -/

/-- The tag that begins the text, opening or closing. -/
def tagAt? : Text → Option Token
  | '<' :: '/' :: rest =>
    let name := rest.takeWhile isTagChar
    if isTagName name && (rest.dropWhile isTagChar).head? = some '>' then some (.closing name) else none
  | '<' :: rest => (Tag.read? rest).map fun found => .opening found.1 found.2.1
  | _ => none

/-- All tags of a text from left to right, opening and closing. -/
def tagsOf : Text → List Token
  | [] => []
  | c :: rest => (tagAt? (c :: rest)).toList ++ tagsOf rest

theorem tagsOf_of_not_mem {t : Text} (h : '<' ∉ t) (u : Text) : tagsOf (t ++ u) = tagsOf u := by
  induction t with
  | nil => rfl
  | cons c t ih =>
    simp only [List.mem_cons, not_or] at h
    rw [List.cons_append, tagsOf, ih h.2]
    have hnone : tagAt? (c :: (t ++ u)) = none := by
      unfold tagAt?
      split
      · rename_i heq
        exact absurd (List.cons.inj heq).1.symm h.1
      · rename_i heq
        exact absurd (List.cons.inj heq).1.symm h.1
      · rfl
    rw [hnone]
    rfl

theorem tagAt?_opening {name attributes : Text} (h : Tag.IsOpening name attributes) (u : Text) :
    tagAt? (Tag.opening name attributes ++ u) = some (.opening name attributes) := by
  rw [Tag.opening_append]
  have hne : ∀ v, name ++ attributes ++ '>' :: u ≠ '/' :: v := by
    intro v heq
    rw [List.append_assoc] at heq
    exact head_ne_slash h.isName heq
  unfold tagAt?
  split
  · rename_i heq
    exact absurd (List.cons.inj heq).2 (hne _)
  · rename_i heq
    rw [← (List.cons.inj heq).2, h.read?]
    rfl
  · rename_i hno
    exact absurd rfl (hno _)

theorem tagAt?_closing {name : Text} (h : isTagName name = true) (u : Text) :
    tagAt? (Tag.closing name ++ u) = some (.closing name) := by
  have htake := Text.takeWhile_append_cons (b := u) (isTagChar_of_isTagName h) Tag.isTagChar_gt
  have hdrop := Text.dropWhile_append_cons (b := u) (isTagChar_of_isTagName h) Tag.isTagChar_gt
  unfold Tag.closing tagAt?
  simp [htake, hdrop, h]

/-- **The tags of a page are its tokens but the plain text.** -/
theorem tagsOf_writeAll {ts : List Token} (h : ∀ t ∈ ts, t.IsClean) :
    tagsOf (writeAll ts) = ts.filter (Token.isTagIn fun _ => true) := by
  induction ts with
  | nil => rfl
  | cons token ts ih =>
    have hts := ih fun t ht => h t (List.mem_cons_of_mem _ ht)
    have htoken := h token (List.mem_cons_self ..)
    rw [writeAll_cons]
    cases token with
    | text t =>
      rw [List.filter_cons_of_neg (by simp [Token.isTagIn]), ← hts]
      exact tagsOf_of_not_mem htoken (writeAll ts)
    | opening name attributes =>
      have hat := tagAt?_opening htoken.1 (writeAll ts)
      have hrest : '<' ∉ name ++ attributes ++ ['>'] := by
        simpa using ⟨not_lt_of_isTagName htoken.1.isName, htoken.2⟩
      rw [List.filter_cons_of_pos (by simp [Token.isTagIn]), ← hts,
        ← tagsOf_of_not_mem hrest (writeAll ts)]
      unfold Token.write
      unfold Tag.opening at hat ⊢
      rw [List.cons_append] at hat ⊢
      rw [tagsOf, hat]
      rfl
    | closing name =>
      have hat := tagAt?_closing htoken (writeAll ts)
      have hrest : '<' ∉ '/' :: (name ++ ['>']) := by simpa using not_lt_of_isTagName htoken
      rw [List.filter_cons_of_pos (by simp [Token.isTagIn]), ← hts,
        ← tagsOf_of_not_mem hrest (writeAll ts)]
      unfold Token.write
      unfold Tag.closing at hat ⊢
      rw [List.cons_append] at hat ⊢
      rw [tagsOf, hat]
      rfl

end Inlay.Markup
