import ExprLang.Proofs.Scanning

/-!
# Bracket groups and quoted strings follow their grammar

A symbol may carry bracket groups, which its name keeps verbatim, and a bracket inside a
quoted string does not count. `Token.group` scans such a group after its opening bracket and
`Token.quotedBody` a quoted string after its opening quote. Their grammar, over characters:

```text
Q := '"' ( '\' c | c other than '"' and '\' )* '"'
B := '(' ( Q | B | c other than '(', ')' and '"' )* ')'
```

is written here on its own (`QuotedItems`, `GroupItems`, `IsGroup`), and the main statement,
`group_reads_grammar`, says that the scanners read exactly it:

* the scan of a group succeeds exactly when a front of the text is a group of `B`, and stops
  right after it; a text starts with at most one group, and the symbol scanner keeps it
  verbatim in the symbol's name;
* otherwise the text ends inside the group (`Unclosed`), and the message says whether it ends
  inside a quoted string (`unmatched quote`) or outside one (`unmatched parentheses`);
* a quoted string is read exactly when a front of the text after its quote is a body of `Q`
  followed by the closing quote, and the body read has `\"` and `\\` unescaped and every
  other backslash kept.

The characters the grammar names are ASCII, so over the UTF-8 bytes of a text it is the same
grammar.

Two facts carry the proof. Scanning a run of items copies it and goes on in the state it
started in (`quotedBody_items`, `group_quoted`, `group_items`), which gives completeness. And
every text either closes the group after a run of items or ends inside it (`group_cases`);
since the scanner is a function, completeness on both sides then gives the converse.
-/

namespace ExprLang.Token

open Text (isBlank)

/-! ## The grammar -/

/-- The items of a quoted string's body and the text they stand for: `\"` and `\\` stand for
the character after the backslash, a backslash before any other character for both
characters, and a character other than a quote or a backslash for itself. -/
inductive QuotedItems : List Char → List Char → Prop
  | nil : QuotedItems [] []
  | escaped {c : Char} {w b : List Char} : (c = '"' ∨ c = '\\') → QuotedItems w b →
      QuotedItems ('\\' :: c :: w) (c :: b)
  | kept {c : Char} {w b : List Char} : c ≠ '"' → c ≠ '\\' → QuotedItems w b →
      QuotedItems ('\\' :: c :: w) ('\\' :: c :: b)
  | plain {c : Char} {w b : List Char} : c ≠ '"' → c ≠ '\\' → QuotedItems w b →
      QuotedItems (c :: w) (c :: b)

/-- The items inside a bracket group: quoted strings, nested groups, and characters other
than brackets and quotes. -/
inductive GroupItems : List Char → Prop
  | nil : GroupItems []
  | quoted {w b u : List Char} : QuotedItems w b → GroupItems u →
      GroupItems ('"' :: (w ++ '"' :: u))
  | group {g u : List Char} : GroupItems g → GroupItems u → GroupItems ('(' :: (g ++ ')' :: u))
  | plain {c : Char} {u : List Char} : c ≠ '(' → c ≠ ')' → c ≠ '"' → GroupItems u →
      GroupItems (c :: u)

/-- A bracket group: items between a bracket and the bracket that closes it. -/
def IsGroup (w : List Char) : Prop :=
  ∃ u, GroupItems u ∧ w = '(' :: (u ++ [')'])

/-- Text after a group's opening bracket that ends before the group closes. The flag says
whether it ends inside a quoted string: after the items of a body, or after a backslash that
starts one more item. -/
inductive Unclosed : List Char → Bool → Prop
  | items {u : List Char} : GroupItems u → Unclosed u false
  | quote {u w b : List Char} : GroupItems u → QuotedItems w b → Unclosed (u ++ '"' :: w) true
  | backslash {u w b : List Char} : GroupItems u → QuotedItems w b →
      Unclosed (u ++ '"' :: (w ++ ['\\'])) true
  | group {u v : List Char} {q : Bool} : GroupItems u → Unclosed v q →
      Unclosed (u ++ '(' :: v) q

/-- The message of a group that the text ends inside: inside a quoted string, or not. -/
def unclosedMessage : Bool → String
  | true => "unmatched quote"
  | false => "unmatched parentheses"

theorem QuotedItems.backslash (c : Char) {w b : List Char} (h : QuotedItems w b) :
    ∃ b', QuotedItems ('\\' :: c :: w) b' := by
  by_cases hc : c = '"' ∨ c = '\\'
  · exact ⟨_, .escaped hc h⟩
  · rw [not_or] at hc
    exact ⟨_, .kept hc.1 hc.2 h⟩

theorem GroupItems.append {u v : List Char} (hu : GroupItems u) (hv : GroupItems v) :
    GroupItems (u ++ v) := by
  induction hu with
  | nil => exact hv
  | quoted hw _ ih => simpa using GroupItems.quoted hw ih
  | group hg _ _ ih => simpa using GroupItems.group hg ih
  | plain h₁ h₂ h₃ _ ih => exact .plain h₁ h₂ h₃ ih

/-- Items in front of unclosed text leave it unclosed. -/
theorem Unclosed.prepend {u v : List Char} {q : Bool} (hu : GroupItems u) (hv : Unclosed v q) :
    Unclosed (u ++ v) q := by
  cases hv with
  | items hv => exact .items (hu.append hv)
  | quote hv hw => simpa using Unclosed.quote (hu.append hv) hw
  | backslash hv hw => simpa using Unclosed.backslash (hu.append hv) hw
  | group hv h => simpa using Unclosed.group (hu.append hv) h

/-! ## Scanning a run of items copies it -/

/-- Puts `w` in front of the text of a scanned group, as `keep` does for one character. -/
def keepAll (w : List Char) :
    Except String (List Char × List Char) → Except String (List Char × List Char)
  | .ok (g, t) => .ok (w ++ g, t)
  | .error m => .error m

section KeepAll

variable {e : Except String (List Char × List Char)}

@[simp] theorem keepAll_nil : keepAll [] e = e := by
  rcases e with m | ⟨g, t⟩ <;> rfl

@[simp] theorem keepAll_keepAll {a b : List Char} :
    keepAll a (keepAll b e) = keepAll (a ++ b) e := by
  rcases e with m | ⟨g, t⟩ <;> simp [keepAll]

@[simp] theorem keep_eq_keepAll {c : Char} : keep c e = keepAll [c] e := by
  rcases e with m | ⟨g, t⟩ <;> rfl

@[simp] theorem keepAll_error {w : List Char} {m : String} : keepAll w (.error m) = .error m := rfl

end KeepAll

section Steps

variable {d : Nat} {r : List Char}

@[simp] theorem group_nil (d : Nat) (q : Bool) : group d q [] = .error (unclosedMessage q) := by
  cases q <;> rfl

theorem group_openQuote : group d false ('"' :: r) = keep '"' (group d true r) := by
  rw [group]

theorem group_closeQuote : group d true ('"' :: r) = keep '"' (group d false r) := by
  rw [group]

/-- Inside a quoted string a backslash takes the character after it along, whatever it is. -/
theorem group_backslash (c : Char) :
    group d true ('\\' :: c :: r) = keep '\\' (keep c (group d true r)) := by
  by_cases hq : c = '"'
  · subst hq; rw [group]
  by_cases hb : c = '\\'
  · subst hb; rw [group]
  rw [group.eq_6 d '\\' (c :: r) (by decide) (fun _ _ he => hq (List.cons.inj he).1)
    (fun _ _ he => hb (List.cons.inj he).1), group.eq_6 d c r hq (fun _ h => absurd h hb)
    (fun _ h => absurd h hb)]

theorem group_backslash_end : group d true ['\\'] = .error "unmatched quote" := by
  rw [group.eq_6 d '\\' [] (by decide) (fun _ _ he => by cases he) (fun _ _ he => by cases he)]
  rfl

theorem group_inQuote {c : Char} (h₁ : c ≠ '"') (h₂ : c ≠ '\\') :
    group d true (c :: r) = keep c (group d true r) :=
  group.eq_6 d c r h₁ (fun _ h => absurd h h₂) (fun _ h => absurd h h₂)

theorem group_close_succ : group (d + 1) false (')' :: r) = keep ')' (group d false r) := by
  rw [group]

theorem group_open : group d false ('(' :: r) = keep '(' (group (d + 1) false r) := by
  rw [group]

theorem group_plain {c : Char} (h₁ : c ≠ '(') (h₂ : c ≠ ')') (h₃ : c ≠ '"') :
    group d false (c :: r) = keep c (group d false r) :=
  group.eq_11 d c r h₁ h₃ (fun _ h => absurd h h₂) (fun _ _ h => absurd h h₂)

theorem quotedBody_backslash_end : quotedBody ['\\'] = none := by
  rw [quotedBody.eq_5 '\\' [] (by decide) (fun _ _ he => by cases he) (fun _ _ he => by cases he)]
  rfl

end Steps

/-- Reading the items of a body copies what they stand for. -/
theorem quotedBody_items {w b : List Char} (h : QuotedItems w b) (y : List Char) :
    quotedBody (w ++ y) = (quotedBody y).map fun p => (b ++ p.1, p.2) := by
  induction h with
  | nil => simp
  | @escaped c w b hc _ ih =>
    rcases hc with rfl | rfl <;>
      simp only [List.cons_append, quotedBody, ih, Option.map_map, Function.comp_def]
  | @kept c w b h₁ h₂ _ ih =>
    rw [List.cons_append, List.cons_append,
      quotedBody.eq_5 '\\' (c :: (w ++ y)) (by decide) (fun _ _ he => h₁ (List.cons.inj he).1)
        (fun _ _ he => h₂ (List.cons.inj he).1),
      quotedBody.eq_5 c (w ++ y) h₁ (fun _ h => absurd h h₂) (fun _ h => absurd h h₂), ih]
    simp only [Option.map_map, Function.comp_def, List.cons_append]
  | @plain c w b h₁ h₂ _ ih =>
    rw [List.cons_append, quotedBody.eq_5 c (w ++ y) h₁ (fun _ h => absurd h h₂)
      (fun _ h => absurd h h₂), ih]
    simp only [Option.map_map, Function.comp_def, List.cons_append]

/-- Inside a quoted string, reading the items of a body copies them. -/
theorem group_quoted {w b : List Char} (h : QuotedItems w b) (d : Nat) (y : List Char) :
    group d true (w ++ y) = keepAll w (group d true y) := by
  induction h with
  | nil => simp
  | @escaped c w b _ _ ih | @kept c w b _ _ _ ih =>
    rw [List.cons_append, List.cons_append, group_backslash, ih]
    simp
  | @plain c w b h₁ h₂ _ ih =>
    rw [List.cons_append, group_inQuote h₁ h₂, ih]
    simp

/-- Inside a group, reading a run of items copies it, at every depth. -/
theorem group_items {u : List Char} (h : GroupItems u) :
    ∀ (d : Nat) (y : List Char), group d false (u ++ y) = keepAll u (group d false y) := by
  induction h with
  | nil => simp
  | @quoted w b u hw _ ih =>
    intro d y
    rw [List.cons_append, group_openQuote, List.append_assoc, group_quoted hw, List.cons_append,
      group_closeQuote, ih]
    simp
  | @group g u _ _ ihg ihu =>
    intro d y
    rw [List.cons_append, group_open, List.append_assoc, ihg, List.cons_append, group_close_succ,
      ihu]
    simp
  | @plain c u h₁ h₂ h₃ _ ih =>
    intro d y
    rw [List.cons_append, group_plain h₁ h₂ h₃, ih]
    simp

/-- A text that ends inside a group fails with the message of where it ends. -/
theorem group_unclosed {v : List Char} {q : Bool} (h : Unclosed v q) :
    ∀ d, group d false v = .error (unclosedMessage q) := by
  induction h with
  | @items u hu =>
    intro d
    simpa using group_items hu d []
  | @quote u w b hu hw =>
    intro d
    rw [group_items hu, group_openQuote, ← List.append_nil w, group_quoted hw]
    simp [unclosedMessage]
  | @backslash u w b hu hw =>
    intro d
    rw [group_items hu, group_openQuote, group_quoted hw, group_backslash_end]
    rfl
  | @group u v q hu _ ih =>
    intro d
    rw [group_items hu, group_open, ih]
    rfl

/-! ## Every text closes its group or ends inside it -/

/-- After a quote, a text either closes the quoted string after the items of a body, or ends
inside it. -/
theorem quoted_cases (r : List Char) :
    (∃ w b t, QuotedItems w b ∧ r = w ++ '"' :: t) ∨
      ∃ w b, QuotedItems w b ∧ (r = w ∨ r = w ++ ['\\']) := by
  match r with
  | [] => exact .inr ⟨[], [], .nil, .inl rfl⟩
  | c :: r =>
    by_cases hq : c = '"'
    · exact .inl ⟨[], [], r, .nil, by rw [hq]; rfl⟩
    by_cases hb : c = '\\'
    · subst hb
      match r with
      | [] => exact .inr ⟨[], [], .nil, .inr rfl⟩
      | c' :: r' =>
        -- a backslash takes the next character along, whatever it is
        rcases quoted_cases r' with ⟨w, b, t, hw, rfl⟩ | ⟨w, b, hw, hr | hr⟩
        · obtain ⟨b', hw'⟩ := hw.backslash c'
          exact .inl ⟨_, b', t, hw', rfl⟩
        · obtain ⟨b', hw'⟩ := hw.backslash c'
          exact .inr ⟨_, b', hw', .inl (by rw [hr])⟩
        · obtain ⟨b', hw'⟩ := hw.backslash c'
          exact .inr ⟨_, b', hw', .inr (by rw [hr]; rfl)⟩
    · rcases quoted_cases r with ⟨w, b, t, hw, rfl⟩ | ⟨w, b, hw, hr | hr⟩
      · exact .inl ⟨c :: w, c :: b, t, .plain hq hb hw, rfl⟩
      · exact .inr ⟨c :: w, c :: b, .plain hq hb hw, .inl (by rw [hr])⟩
      · exact .inr ⟨c :: w, c :: b, .plain hq hb hw, .inr (by rw [hr]; rfl)⟩

/-- After a group's opening bracket, a text either closes the group after a run of items, or
ends inside it. -/
theorem group_cases : ∀ r : List Char,
    (∃ u t, GroupItems u ∧ r = u ++ ')' :: t) ∨ ∃ q, Unclosed r q
  | [] => .inr ⟨false, .items .nil⟩
  | c :: r => by
    by_cases hc : c = ')'
    · exact .inl ⟨[], r, .nil, by rw [hc]; rfl⟩
    by_cases ho : c = '('
    · subst ho
      -- a nested group, then the rest of this one
      rcases group_cases r with ⟨u, t, hu, hr⟩ | ⟨q, hr⟩
      · have : t.length < r.length := by simp [hr]; omega
        rcases group_cases t with ⟨u', t', hu', rfl⟩ | ⟨q, ht⟩
        · exact .inl ⟨_, t', .group hu hu', by simp [hr]⟩
        · exact .inr ⟨q, by simpa [hr] using Unclosed.prepend (.group hu .nil) ht⟩
      · exact .inr ⟨q, by simpa using Unclosed.group .nil hr⟩
    by_cases hq : c = '"'
    · subst hq
      -- a quoted string, then the rest of the group
      rcases quoted_cases r with ⟨w, b, t, hw, hr⟩ | ⟨w, b, hw, hr | hr⟩
      · have : t.length < r.length := by simp [hr]; omega
        rcases group_cases t with ⟨u', t', hu', rfl⟩ | ⟨q, ht⟩
        · exact .inl ⟨_, t', .quoted hw hu', by simp [hr]⟩
        · exact .inr ⟨q, by simpa [hr] using Unclosed.prepend (.quoted hw .nil) ht⟩
      · exact .inr ⟨true, by simpa [hr] using Unclosed.quote .nil hw⟩
      · exact .inr ⟨true, by simpa [hr] using Unclosed.backslash .nil hw⟩
    · rcases group_cases r with ⟨u, t, hu, rfl⟩ | ⟨q, hr⟩
      · exact .inl ⟨c :: u, t, .plain ho hc hq hu, rfl⟩
      · exact .inr ⟨q, by simpa using Unclosed.prepend (.plain ho hc hq .nil) hr⟩
termination_by r => r.length
decreasing_by all_goals simp only [List.length_cons]; omega

/-! ## The scanners read exactly the grammar -/

/-- A group of the grammar is read whole, whatever follows it. -/
theorem group_of_isGroup {g : List Char} (hg : IsGroup ('(' :: g)) (t : List Char) :
    group 0 false (g ++ t) = .ok (g, t) := by
  obtain ⟨u, hu, he⟩ := hg
  obtain rfl : g = u ++ [')'] := (List.cons.inj he).2
  rw [List.append_assoc, List.singleton_append, group_items hu]
  rfl

theorem group_eq_ok_iff {r g t : List Char} :
    group 0 false r = .ok (g, t) ↔ IsGroup ('(' :: g) ∧ r = g ++ t := by
  constructor
  · intro h
    rcases group_cases r with ⟨u, t', hu, rfl⟩ | ⟨q, hq⟩
    · have hg : IsGroup ('(' :: (u ++ [')'])) := ⟨u, hu, rfl⟩
      have hr : u ++ ')' :: t' = (u ++ [')']) ++ t' := by simp
      rw [hr, group_of_isGroup hg] at h
      obtain ⟨rfl, rfl⟩ := Prod.mk.inj (Except.ok.inj h)
      exact ⟨hg, hr⟩
    · rw [group_unclosed hq] at h
      cases h
  · rintro ⟨hg, rfl⟩
    exact group_of_isGroup hg t

/-- A bracket inside a quoted string does not close the group. -/
example :
    group 0 false "x,y, \")\") 3.14e-2".toList = .ok ("x,y, \")\")".toList, " 3.14e-2".toList) := by
  decide

theorem group_eq_error_iff {r : List Char} {m : String} :
    group 0 false r = .error m ↔ ∃ q, Unclosed r q ∧ m = unclosedMessage q := by
  constructor
  · intro h
    rcases group_cases r with ⟨u, t, hu, rfl⟩ | ⟨q, hq⟩
    · have hr : u ++ ')' :: t = (u ++ [')']) ++ t := by simp
      rw [hr, group_of_isGroup ⟨u, hu, rfl⟩] at h
      cases h
    · rw [group_unclosed hq] at h
      exact ⟨q, hq, (Except.error.inj h).symm⟩
  · rintro ⟨q, hq, rfl⟩
    exact group_unclosed hq 0

example : group 0 false "x,y, (((\")\"))) 3.14e-2".toList = .error "unmatched parentheses" := by
  decide

example : group 0 false "x,y, \") 3.14e-2".toList = .error "unmatched quote" := by
  decide

/-- A text starts with at most one group of the grammar. -/
theorem IsGroup.eq_of_append_eq {w w' t t' : List Char} (h : IsGroup w) (h' : IsGroup w')
    (he : w ++ t = w' ++ t') : w = w' := by
  obtain ⟨u, hu, rfl⟩ := h
  obtain ⟨u', hu', rfl⟩ := h'
  -- both groups are what the scanner reads from the same text
  have he' : (u ++ [')']) ++ t = (u' ++ [')']) ++ t' := by simpa using he
  have hg := group_of_isGroup ⟨u, hu, rfl⟩ t
  rw [he', group_of_isGroup ⟨u', hu', rfl⟩ t'] at hg
  rw [(Prod.mk.inj (Except.ok.inj hg)).1]

theorem quotedBody_eq_some_iff {r b t : List Char} :
    quotedBody r = some (b, t) ↔ ∃ w, QuotedItems w b ∧ r = w ++ '"' :: t := by
  constructor
  · intro h
    rcases quoted_cases r with ⟨w, b', t', hw, rfl⟩ | ⟨w, b', hw, hr | hr⟩
    · rw [quotedBody_items hw] at h
      simp only [quotedBody, Option.map_some, List.append_nil, Option.some.injEq,
        Prod.mk.injEq] at h
      obtain ⟨rfl, rfl⟩ := h
      exact ⟨w, hw, rfl⟩
    · rw [hr, ← List.append_nil w, quotedBody_items hw] at h
      simp [quotedBody] at h
    · rw [hr, quotedBody_items hw, quotedBody_backslash_end] at h
      simp at h
  · rintro ⟨w, hw, rfl⟩
    simp [quotedBody_items hw, quotedBody]

/-! ## The symbol scanner keeps a group verbatim -/

/-- A group that does not close makes the symbol fail with the group's message. -/
theorem symbolRest_group_error {acc cs r : List Char} {m : String}
    (h : (cs.dropWhile Char.isAlphanum).dropWhile isBlank = '(' :: r)
    (hg : group 0 false r = .error m) : symbolRest acc cs = .error m := by
  rw [symbolRest]
  split
  next r' he => exact absurd (List.cons.inj (h.symm.trans he)).1 (by decide)
  next r' he =>
    obtain ⟨-, rfl⟩ := List.cons.inj (h.symm.trans he)
    split
    next m' hm => rw [hg] at hm; cases hm; rfl
    next g t hm => rw [hg] at hm; cases hm
  next c' r' _ hp he => exact absurd (List.cons.inj (h.symm.trans he)).1.symm hp
  next he => cases h.symm.trans he

/-- Bracket groups and quoted strings are scanned exactly by their grammar. After a `(`, the
scan of a group succeeds exactly when the text starts with a group of the grammar, and stops
right after it; no text starts with two groups; the symbol scanner puts the group verbatim into
the symbol's name and goes on after it; and a text that does not start with a group ends
inside it, with `unmatched quote` when it ends inside a quoted string and
`unmatched parentheses` otherwise, both for the scan and for the symbol. After a `"`, a quoted
string is read exactly when the text starts with a body of the grammar and a closing quote,
and what is read is the body with `\"` and `\\` unescaped and every other backslash kept. -/
theorem group_reads_grammar :
    (∀ r g t, group 0 false r = .ok (g, t) ↔ IsGroup ('(' :: g) ∧ r = g ++ t) ∧
    (∀ w t w' t', IsGroup w → IsGroup w' → w ++ t = w' ++ t' → w = w') ∧
    (∀ r m, group 0 false r = .error m ↔ ∃ q, Unclosed r q ∧ m = unclosedMessage q) ∧
    (∀ acc cs r, (cs.dropWhile Char.isAlphanum).dropWhile isBlank = '(' :: r →
      (∀ g t, IsGroup ('(' :: g) → r = g ++ t →
        symbolRest acc cs =
          if continuesSymbol t then symbolRest (acc ++ cs.takeWhile Char.isAlphanum ++ '(' :: g) t
          else .ok (acc ++ cs.takeWhile Char.isAlphanum ++ '(' :: g, t)) ∧
      (∀ q, Unclosed r q → symbolRest acc cs = .error (unclosedMessage q))) ∧
    (∀ r b t, quotedBody r = some (b, t) ↔ ∃ w, QuotedItems w b ∧ r = w ++ '"' :: t) := by
  refine ⟨fun _ _ _ => group_eq_ok_iff, fun _ _ _ _ h h' he => h.eq_of_append_eq h' he,
    fun _ _ => group_eq_error_iff, fun acc cs r hr => ⟨?_, ?_⟩, fun _ _ _ => quotedBody_eq_some_iff⟩
  · rintro g t hg rfl
    exact symbolRest_group hr (group_of_isGroup hg t)
  · intro q hq
    exact symbolRest_group_error hr (group_unclosed hq 0)

end ExprLang.Token
