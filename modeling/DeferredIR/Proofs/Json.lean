import DeferredIR.Json
import DeferredIR.Proofs.Decimal.Layout

/-!
# The text of a JSON value determines it

Only numbers do not say themselves where they end, but nothing that follows a value can be part of a
number. So a text can be read in one way only, and two values with one text are equal, except that
infinities and the not-a-number cannot be told from `null`.
-/

namespace DeferredIR.Json

open Text

/-! ## Strings -/

/-- The character that is escaped by a letter. -/
def letter? (c : Char) : Option Char :=
  if c = '"' then some '"'
  else if c = '\\' then some '\\'
  else if c = 'n' then some '\n'
  else if c = 'r' then some '\r'
  else if c = 't' then some '\t'
  else if c = 'b' then some '\x08'
  else if c = 'f' then some '\x0c'
  else none

/-- Reads one character of a string from its code. -/
def unescape : List Char → Option (Char × List Char)
  | '\\' :: 'u' :: _ :: _ :: high :: low :: rest =>
      some (Char.ofNat (16 * digitValue high + digitValue low), rest)
  | '\\' :: c :: rest => (letter? c).map (·, rest)
  | '"' :: _ => none
  | c :: rest => some (c, rest)
  | [] => none

/-- The number of a control character has two digits. -/
theorem leftpad_toDigits_of_lt {n : Nat} (h : n < 0x20) :
    (Nat.toDigits 16 n).leftpad 4 '0' =
      ['0', '0', (n / 16).digitChar, (n % 16).digitChar] := by
  have hall : ∀ n < 0x20, (Nat.toDigits 16 n).leftpad 4 '0' =
      ['0', '0', (n / 16).digitChar, (n % 16).digitChar] := by decide +kernel
  exact hall n h

theorem unescape_control {c : Char} (h : c.toNat < 0x20) (rest : List Char) :
    unescape ('\\' :: 'u' :: (Nat.toDigits 16 c.toNat).leftpad 4 '0' ++ rest) =
      some (c, rest) := by
  rw [leftpad_toDigits_of_lt h]
  simp only [List.cons_append, List.nil_append, unescape]
  rw [digitValue_digitChar (by omega), digitValue_digitChar (by omega), Nat.div_add_mod,
    Char.ofNat_toNat]

/-- A character that stands for itself. -/
theorem unescape_self {c : Char} (hquote : c ≠ '"') (hslash : c ≠ '\\') (rest : List Char) :
    unescape (c :: rest) = some (c, rest) := by
  unfold unescape
  split <;> simp_all

theorem unescape_escape (c : Char) (rest : List Char) :
    unescape (escape c ++ rest) = some (c, rest) := by
  unfold escape
  split
  · subst c; rfl
  split
  · subst c; rfl
  split
  · subst c; rfl
  split
  · subst c; rfl
  split
  · subst c; rfl
  split
  · subst c; rfl
  split
  · subst c; rfl
  split
  · exact unescape_control ‹_› rest
  · exact unescape_self ‹_› ‹_› rest

theorem decodes : Decodes escape unescape := ⟨unescape_escape, fun _ => rfl⟩

/-! ## What a text determines -/

mutual

/-- The value with `null` in the place of each float that is not finite. -/
def flat : Json → Json
  | float (.finite negative rank) => float (.finite negative rank)
  | float (.infinity _) | float .nan => null
  | arr items => arr (flatItems items)
  | obj members => obj (flatMembers members)
  | j => j
termination_by structural j => j

def flatItems : List Json → List Json
  | [] => []
  | j :: items => flat j :: flatItems items
termination_by structural items => items

def flatMembers : List (String × Json) → List (String × Json)
  | [] => []
  | member :: members => flatMember member :: flatMembers members
termination_by structural members => members

def flatMember : String × Json → String × Json
  | (key, j) => (key, flat j)
termination_by structural member => member

end

attribute [simp] flat flatMembers flatMember

theorem flatItems_eq (items : List Json) : flatItems items = items.map flat := by
  induction items with
  | nil => rfl
  | cons j items ih => rw [flatItems, ih, List.map_cons]

theorem flatMembers_eq (members : List (String × Json)) :
    flatMembers members = members.map fun m => (m.1, m.2.flat) := by
  induction members with
  | nil => rfl
  | cons m members ih => rw [flatMembers, ih, List.map_cons, flatMember]

theorem flatMembers_append (members members' : List (String × Json)) :
    flatMembers (members ++ members') = flatMembers members ++ flatMembers members' := by
  rw [flatMembers_eq, flatMembers_eq, flatMembers_eq, List.map_append]

/-- A list of items tells a view of each of them that the item tells. -/
theorem flatItems_map_inj {α β : Type} {form : α → Json} {view : α → β}
    (h : ∀ x y, (form x).flat = (form y).flat ↔ view x = view y) {xs ys : List α} :
    flatItems (xs.map form) = flatItems (ys.map form) ↔ xs.map view = ys.map view := by
  induction xs generalizing ys with
  | nil => cases ys <;> simp [flatItems]
  | cons x xs ih => cases ys <;> simp [flatItems, h, ih]

theorem flatItems_map_inj_self {α : Type} {form : α → Json}
    (h : ∀ x y, (form x).flat = (form y).flat ↔ x = y) {xs ys : List α} :
    flatItems (xs.map form) = flatItems (ys.map form) ↔ xs = ys := by
  rw [flatItems_map_inj h, List.map_id', List.map_id']

theorem writeItems_eq (L : Layout) (depth : Nat) (items : List Json) :
    writeItems L depth items = items.map (write L depth) := by
  induction items with
  | nil => rfl
  | cons j items ih => rw [writeItems, ih, List.map_cons]

theorem writeMembers_eq (L : Layout) (depth : Nat) (members : List (String × Json)) :
    writeMembers L depth members = members.map (writeMember L depth) := by
  induction members with
  | nil => rfl
  | cons m members ih => rw [writeMembers, ih, List.map_cons]

/-- Nothing that could be part of a number comes next. -/
def Ends (rest : List Char) : Prop := ∀ c ∈ rest.head?, ¬ IsNumberChar c

theorem ends_nil : Ends [] := by simp [Ends]

theorem ends_comma (rest : List Char) : Ends (',' :: rest) := by simp [Ends, IsNumberChar]

theorem ends_newline (rest : List Char) : Ends ('\n' :: rest) := by simp [Ends, IsNumberChar]

/-- The text of `x` determines what can be seen of it, and where it ends. -/
def Legible {α β : Type} (text : α → String) (view : α → β) (x : α) : Prop :=
  ∀ (x' : α) {rest rest' : List Char}, Ends rest → Ends rest' →
    (text x).toList ++ rest = (text x').toList ++ rest' → view x = view x' ∧ rest = rest'

/-! ## Lists of values -/

section Bracket

variable {α β : Type} {text : α → String} {view : α → β} {depth : Nat} {x x' : α}
variable {xs xs' : List α} {rest rest' : List Char}

theorem toList_pretty_line (depth : Nat) :
    (Layout.pretty.line depth).toList = '\n' :: List.replicate (2 * depth) ' ' := by
  simp [Layout.pretty]

/-- The items between two brackets, each on a line of its own. -/
def itemLines (text : α → String) (depth : Nat) (xs : List α) : List Char :=
  [','].intercalate (xs.map fun x => (Layout.pretty.line (depth + 1)).toList ++ (text x).toList)

theorem toList_bracket (left right : String) (xs : List α) :
    (Layout.pretty.bracket depth left right (xs.map text)).toList =
      left.toList ++ (if xs = [] then right.toList
        else itemLines text depth xs ++ (Layout.pretty.line depth).toList ++ right.toList) := by
  cases xs with
  | nil => simp [Layout.bracket]
  | cons x xs =>
    have hcomma : ",".toList = [','] := rfl
    simp only [List.map_cons, Layout.bracket, String.toList_append, String.toList_intercalate,
      List.map_map, Function.comp_def, hcomma, reduceCtorEq, if_false, itemLines,
      List.append_assoc]

/-- The line of an item, and what follows it. -/
theorem itemLines_cons_append (x : α) (xs : List α) (rest : List Char) :
    itemLines text depth (x :: xs) ++ rest =
      (Layout.pretty.line (depth + 1)).toList ++ ((text x).toList ++
        if xs = [] then rest else ',' :: (itemLines text depth xs ++ rest)) := by
  cases xs with
  | nil => simp [itemLines]
  | cons y ys =>
    simp only [itemLines, List.map_cons, List.intercalate_cons_cons, List.append_assoc,
      List.cons_append, List.nil_append, reduceCtorEq, if_false]

/-- Lines of legible items, up to the line of a closing bracket, can be read. -/
theorem itemLines_inj (hx : ∀ y ∈ x :: xs, Legible text view y)
    (h : itemLines text depth (x :: xs) ++ '\n' :: rest =
      itemLines text depth (x' :: xs') ++ '\n' :: rest') :
    (x :: xs).map view = (x' :: xs').map view ∧ rest = rest' := by
  induction xs generalizing x x' xs' with
  | nil =>
    rw [itemLines_cons_append x, itemLines_cons_append x'] at h
    have h := List.append_cancel_left h
    cases xs' with
    | nil =>
      obtain ⟨hview, hrest⟩ := hx x List.mem_cons_self x' (ends_newline _) (ends_newline _) h
      exact ⟨by simp [hview], (List.cons_eq_cons.mp hrest).2⟩
    | cons y' ys' =>
      obtain ⟨-, hrest⟩ := hx x List.mem_cons_self x' (ends_newline _) (ends_comma _) h
      cases hrest
  | cons y ys ih =>
    rw [itemLines_cons_append x, itemLines_cons_append x'] at h
    have h := List.append_cancel_left h
    cases xs' with
    | nil =>
      obtain ⟨-, hrest⟩ := hx x List.mem_cons_self x' (ends_comma _) (ends_newline _) h
      cases hrest
    | cons y' ys' =>
      obtain ⟨hview, hrest⟩ := hx x List.mem_cons_self x' (ends_comma _) (ends_comma _) h
      obtain ⟨hviews, hrest⟩ := ih (fun z hz => hx z (List.mem_cons_of_mem x hz))
        (List.cons_eq_cons.mp hrest).2
      exact ⟨by rw [List.map_cons, hview, hviews, List.map_cons (a := x')], hrest⟩

/-- Legible items between brackets can be read. -/
theorem bracket_inj {left right : String} {close : Char} (hright : right.toList = [close])
    (hclose : close ≠ '\n') (hx : ∀ y ∈ xs, Legible text view y)
    (h : (Layout.pretty.bracket depth left right (xs.map text)).toList ++ rest =
      (Layout.pretty.bracket depth left right (xs'.map text)).toList ++ rest') :
    xs.map view = xs'.map view ∧ rest = rest' := by
  rw [toList_bracket, toList_bracket, hright] at h
  simp only [toList_pretty_line, List.append_assoc] at h
  have h := List.append_cancel_left h
  cases xs with
  | nil =>
    cases xs' with
    | nil => exact ⟨rfl, List.append_cancel_left h⟩
    | cons x' xs' =>
      rw [if_neg (List.cons_ne_nil _ _), List.append_assoc, itemLines_cons_append,
        toList_pretty_line] at h
      exact absurd (List.cons_eq_cons.mp h).1 hclose
  | cons x xs =>
    cases xs' with
    | nil =>
      rw [if_neg (List.cons_ne_nil _ _), List.append_assoc, itemLines_cons_append,
        toList_pretty_line] at h
      exact absurd (List.cons_eq_cons.mp h).1.symm hclose
    | cons x' xs' =>
      simp only [reduceCtorEq, if_false, List.append_assoc, List.cons_append] at h
      obtain ⟨hviews, hrest⟩ := itemLines_inj hx h
      exact ⟨hviews, (List.cons_eq_cons.mp (List.append_cancel_left hrest)).2⟩

end Bracket

/-! ## Values -/

/-- The character with which the text of a value begins, if it is no number. -/
def initial : Json → Option Char
  | null => some 'n'
  | bool b => some (if b then 't' else 'f')
  | int _ => none
  | float (.finite ..) => none
  | float (.infinity _) | float .nan => some 'n'
  | str _ => some '"'
  | arr _ => some '['
  | obj _ => some '\x7b'

theorem of_initial_eq_null {j : Json} (h : j.initial = some 'n') :
    j.flat = null ∧ ∀ L depth, j.write L depth = "null" := by
  cases j with
  | null => exact ⟨rfl, fun _ _ => rfl⟩
  | float x =>
    cases x with
    | nan | infinity _ => exact ⟨rfl, fun _ _ => rfl⟩
    | finite _ _ => cases h
  | bool b => cases b <;> simp [initial] at h
  | _ => simp [initial] at h

/-- What the first character of a text says about the value. -/
def Begins (initial : Option Char) (l : List Char) : Prop :=
  ∃ c l', l = c :: l' ∧
    ((initial = none ∧ IsNumberChar c) ∨ (initial = some c ∧ ¬ IsNumberChar c))

theorem begins_number {l : List Char} (hne : l ≠ []) (h : ∀ c ∈ l, IsNumberChar c) :
    Begins none l := by
  obtain ⟨c, l', rfl⟩ := List.exists_cons_of_ne_nil hne
  exact ⟨c, l', rfl, .inl ⟨rfl, h c List.mem_cons_self⟩⟩

theorem begins_char {l : List Char} (c : Char) (l' : List Char) (hl : l = c :: l')
    (hc : ¬ IsNumberChar c) : Begins (some c) l := ⟨c, l', hl, .inr ⟨rfl, hc⟩⟩

theorem number_of_initial {j : Json} (h : j.initial = none) :
    (∃ n, j = int n) ∨ ∃ negative rank, j = float (.finite negative rank) := by
  cases j with
  | int n => exact .inl ⟨n, rfl⟩
  | float x =>
    cases x with
    | finite negative rank => exact .inr ⟨negative, rank, rfl⟩
    | _ => cases h
  | _ => cases h

/-- The text of a number consists of characters of numbers. -/
theorem isNumberChar_of_mem_write {depth : Nat} {j : Json} (h : j.initial = none) {c : Char}
    (hc : c ∈ (j.write .pretty depth).toList) : IsNumberChar c := by
  obtain ⟨n, rfl⟩ | ⟨negative, rank, rfl⟩ := number_of_initial h
  · change c ∈ n.repr.toList at hc
    rw [toList_repr] at hc
    rcases mem_signed hc with hc | rfl | hc
    · exact .inl hc
    · exact .inr (by simp)
    · cases hc
  · exact Binary64.isNumberChar_of_mem_finiteText hc

theorem begins_write (depth : Nat) (j : Json) :
    Begins j.initial (j.write .pretty depth).toList := by
  have hnull {k : Json} (h : k.initial = some 'n') :
      Begins (some 'n') (k.write .pretty depth).toList := by
    rw [(of_initial_eq_null h).2]
    exact begins_char 'n' ['u', 'l', 'l'] rfl (by simp [IsNumberChar])
  cases j with
  | null => exact hnull rfl
  | bool b =>
    rw [write]
    cases b with
    | true => exact begins_char 't' ['r', 'u', 'e'] rfl (by simp [IsNumberChar])
    | false => exact begins_char 'f' ['a', 'l', 's', 'e'] rfl (by simp [IsNumberChar])
  | int n =>
    refine begins_number ?_ fun c => isNumberChar_of_mem_write rfl
    simp [write, toList_repr, signed, Nat.toDigits_ne_nil]
  | float x =>
    cases x with
    | nan | infinity _ => exact hnull rfl
    | finite negative rank =>
      refine begins_number ?_ fun c => isNumberChar_of_mem_write rfl
      rcases Binary64.mem_finiteText numberStyle negative rank with hm | hm <;>
        exact List.ne_nil_of_mem hm
  | str s =>
    rw [write, toList_quoteWith]
    exact begins_char '"' _ rfl (by simp [IsNumberChar])
  | arr items =>
    rw [write, writeItems_eq, toList_bracket]
    exact begins_char '[' _ rfl (by simp [IsNumberChar])
  | obj members =>
    rw [write, writeMembers_eq, toList_bracket]
    exact begins_char '\x7b' _ rfl (by simp [IsNumberChar])

/-- Values whose texts begin with one character are of one kind. -/
theorem initial_eq {depth : Nat} {j j' : Json} {rest rest' : List Char}
    (h : (j.write .pretty depth).toList ++ rest = (j'.write .pretty depth).toList ++ rest') :
    j.initial = j'.initial := by
  obtain ⟨c, l, hl, hc⟩ := begins_write depth j
  obtain ⟨c', l', hl', hc'⟩ := begins_write depth j'
  rw [hl, hl'] at h
  obtain rfl : c = c' := (List.cons_eq_cons.mp h).1
  rcases hc with ⟨hi, hn⟩ | ⟨hi, hn⟩ <;> rcases hc' with ⟨hi', hn'⟩ | ⟨hi', hn'⟩
  · rw [hi, hi']
  · exact absurd hn hn'
  · exact absurd hn' hn
  · rw [hi, hi']

/-! ## Reading values -/

theorem of_initial_eq_bool {j : Json} {b : Bool} (h : j.initial = (bool b).initial) :
    j = bool b := by
  cases j with
  | bool b' => cases b <;> cases b' <;> simp_all [initial]
  | float x => cases b <;> cases x <;> simp [initial] at h
  | _ => cases b <;> simp [initial] at h

theorem legible_null {j : Json} (h : j.initial = some 'n') (depth : Nat) :
    Legible (write .pretty depth) flat j := by
  intro j' rest rest' _ _ he
  obtain ⟨hflat, htext⟩ := of_initial_eq_null h
  obtain ⟨hflat', htext'⟩ := of_initial_eq_null ((initial_eq he).symm.trans h)
  rw [htext, htext'] at he
  exact ⟨hflat.trans hflat'.symm, List.append_cancel_left he⟩

theorem legible_bool (b : Bool) (depth : Nat) : Legible (write .pretty depth) flat (bool b) := by
  intro j' rest rest' _ _ he
  obtain rfl := of_initial_eq_bool (initial_eq he).symm
  exact ⟨rfl, List.append_cancel_left he⟩

/-- Numbers with one text are one number. -/
theorem flat_eq_of_number {depth : Nat} {j j' : Json} (h : j.initial = none)
    (h' : j'.initial = none) (ht : j.write .pretty depth = j'.write .pretty depth) :
    j.flat = j'.flat := by
  obtain ⟨n, rfl⟩ | ⟨negative, rank, rfl⟩ := number_of_initial h <;>
    obtain ⟨n', rfl⟩ | ⟨negative', rank', rfl⟩ := number_of_initial h'
  · have hlist := congrArg String.toList ht
    change n.repr.toList = n'.repr.toList at hlist
    rw [toList_repr, toList_repr] at hlist
    rw [signed_inj List.not_mem_nil hlist]
  · exact absurd ht (Binary64.repr_ne_finiteText _ n negative' rank')
  · exact absurd ht.symm (Binary64.repr_ne_finiteText _ n' negative rank)
  · obtain ⟨rfl, rfl⟩ := Binary64.finiteText_inj ht
    rfl

/-- A number is read up to the first character that cannot be part of one. -/
theorem legible_number {j : Json} (h : j.initial = none) (depth : Nat) :
    Legible (write .pretty depth) flat j := by
  intro j' rest rest' hr hr' he
  have h' : j'.initial = none := (initial_eq he).symm.trans h
  obtain ⟨htext, hrest⟩ := append_inj_of_forall (fun c => isNumberChar_of_mem_write h)
    (fun c => isNumberChar_of_mem_write h') hr hr' he
  exact ⟨flat_eq_of_number h h' (String.toList_injective htext), hrest⟩

theorem legible_str (s : String) (depth : Nat) : Legible (write .pretty depth) flat (str s) := by
  intro j' rest rest' _ _ he
  have hi := (initial_eq he).symm
  cases j' with
  | str s' =>
    obtain ⟨rfl, hrest⟩ := decodes.quoteWith_inj he
    exact ⟨rfl, hrest⟩
  | bool b => cases b <;> cases hi
  | float x => cases x <;> cases hi
  | _ => cases hi

theorem legible_arr {items : List Json} {depth : Nat}
    (h : ∀ j ∈ items, Legible (write .pretty (depth + 1)) flat j) :
    Legible (write .pretty depth) flat (arr items) := by
  intro j' rest rest' _ _ he
  have hi := (initial_eq he).symm
  cases j' with
  | arr items' =>
    rw [write, write, writeItems_eq, writeItems_eq] at he
    obtain ⟨hitems, hrest⟩ := bracket_inj rfl (by decide) h he
    rw [flat, flat, flatItems_eq, flatItems_eq, hitems]
    exact ⟨rfl, hrest⟩
  | bool b => cases b <;> cases hi
  | float x => cases x <;> cases hi
  | _ => cases hi

theorem legible_obj {members : List (String × Json)} {depth : Nat}
    (h : ∀ m ∈ members,
      Legible (writeMember .pretty (depth + 1)) (fun m => (m.1, m.2.flat)) m) :
    Legible (write .pretty depth) flat (obj members) := by
  intro j' rest rest' _ _ he
  have hi := (initial_eq he).symm
  cases j' with
  | obj members' =>
    rw [write, write, writeMembers_eq, writeMembers_eq] at he
    obtain ⟨hmembers, hrest⟩ := bracket_inj rfl (by decide) h he
    rw [flat, flat, flatMembers_eq, flatMembers_eq, hmembers]
    exact ⟨rfl, hrest⟩
  | bool b => cases b <;> cases hi
  | float x => cases x <;> cases hi
  | _ => cases hi

/-- A member is read as its key, then its value. -/
theorem legible_of_value {key : String} {j : Json} {depth : Nat}
    (h : Legible (write .pretty depth) flat j) :
    Legible (writeMember .pretty depth) (fun m => (m.1, m.2.flat)) (key, j) := by
  rintro ⟨key', j'⟩ rest rest' hr hr' he
  simp only [writeMember, String.toList_append, List.append_assoc] at he
  obtain ⟨rfl, hvalue⟩ := decodes.quoteWith_inj he
  obtain ⟨hj, hrest⟩ := h j' hr hr' (List.append_cancel_left hvalue)
  exact ⟨Prod.ext rfl hj, hrest⟩

mutual

theorem legible_write : ∀ (j : Json) (depth : Nat), Legible (write .pretty depth) flat j
  | null, depth => legible_null rfl depth
  | bool b, depth => legible_bool b depth
  | int _, depth | float (.finite ..), depth => legible_number rfl depth
  | float (.infinity _), depth | float .nan, depth => legible_null rfl depth
  | str s, depth => legible_str s depth
  | arr items, depth => legible_arr (legible_items items (depth + 1))
  | obj members, depth => legible_obj (legible_members members (depth + 1))
termination_by structural j => j

theorem legible_items : ∀ (items : List Json) (depth : Nat), ∀ j ∈ items,
    Legible (write .pretty depth) flat j
  | [], _ => fun _ h => absurd h List.not_mem_nil
  | j :: items, depth => by
      have hj := legible_write j depth
      have hitems := legible_items items depth
      intro i hi
      rcases List.mem_cons.mp hi with rfl | hi
      · exact hj
      · exact hitems i hi
termination_by structural items => items

theorem legible_members : ∀ (members : List (String × Json)) (depth : Nat), ∀ m ∈ members,
    Legible (writeMember .pretty depth) (fun m => (m.1, m.2.flat)) m
  | [], _ => fun _ h => absurd h List.not_mem_nil
  | m :: members, depth => by
      have hm := legible_member m depth
      have hmembers := legible_members members depth
      intro i hi
      rcases List.mem_cons.mp hi with rfl | hi
      · exact hm
      · exact hmembers i hi
termination_by structural members => members

theorem legible_member : ∀ (m : String × Json) (depth : Nat),
    Legible (writeMember .pretty depth) (fun m => (m.1, m.2.flat)) m
  | (_, j), depth => legible_of_value (legible_write j depth)
termination_by structural m => m

end

/-! ## Texts -/

mutual

theorem write_flat (L : Layout) : ∀ (j : Json) (depth : Nat), j.flat.write L depth = j.write L depth
  | null, _ | bool _, _ | int _, _ | float (.finite ..), _ | float (.infinity _), _ | float .nan, _
  | str _, _ => rfl
  | arr items, depth => by
      have hitems := writeItems_flatItems L items (depth + 1)
      rw [flat, write, write, hitems]
  | obj members, depth => by
      have hmembers := writeMembers_flatMembers L members (depth + 1)
      rw [flat, write, write, hmembers]
termination_by structural j => j

theorem writeItems_flatItems (L : Layout) : ∀ (items : List Json) (depth : Nat),
    writeItems L depth (flatItems items) = writeItems L depth items
  | [], _ => rfl
  | j :: items, depth => by
      have hj := write_flat L j depth
      have hitems := writeItems_flatItems L items depth
      rw [flatItems, writeItems, writeItems, hj, hitems]
termination_by structural items => items

theorem writeMembers_flatMembers (L : Layout) : ∀ (members : List (String × Json)) (depth : Nat),
    writeMembers L depth (flatMembers members) = writeMembers L depth members
  | [], _ => rfl
  | m :: members, depth => by
      have hm := writeMember_flatMember L m depth
      have hmembers := writeMembers_flatMembers L members depth
      rw [flatMembers, writeMembers, writeMembers, hm, hmembers]
termination_by structural members => members

theorem writeMember_flatMember (L : Layout) : ∀ (m : String × Json) (depth : Nat),
    writeMember L depth (flatMember m) = writeMember L depth m
  | (_, j), depth => by
      have hj := write_flat L j depth
      rw [flatMember, writeMember, writeMember, hj]
termination_by structural m => m

end

/-- Values have one text exactly if they differ at most in what is written as `null`. -/
theorem pretty_eq_iff {j j' : Json} : j.pretty = j'.pretty ↔ j.flat = j'.flat := by
  constructor
  · intro h
    refine (legible_write j 0 j' ends_nil ends_nil ?_).1
    rw [List.append_nil, List.append_nil]
    exact congrArg String.toList h
  · intro h
    rw [pretty, pretty, ← write_flat, h, write_flat]

end DeferredIR.Json
