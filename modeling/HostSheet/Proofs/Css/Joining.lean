import HostSheet.Proofs.Css.Scalars

/-!
# Lists and maps as text

Texts that are read as single items are put together to lists, maps and groups, and these are read
as their items are.
-/

namespace HostSheet

open Grammar

-- ---------------------------------------------------------------------------
-- Where lists end
-- ---------------------------------------------------------------------------

/-- A list ends here, and whatever it stands in goes on. -/
def Closes (s : List Char) : Prop :=
  ∀ c ∈ s.head?, c ∈ [',', ')', ':']

namespace Closes

variable {s : List Char}

theorem nil : Closes [] := by
  simp [Closes]

theorem comma (s : List Char) : Closes (',' :: s) := by
  simp [Closes]

theorem close (s : List Char) : Closes (')' :: s) := by
  simp [Closes]

theorem colon (s : List Char) : Closes (':' :: s) := by
  simp [Closes]

theorem follows (h : Closes s) : Follows s :=
  fun c hc => List.mem_cons_of_mem _ (h c hc)

theorem trivia (h : Closes s) : Trivia s s := by
  cases s with
  | nil => exact .done ⟨rfl, rfl⟩
  | cons c s =>
    have hc := h c rfl
    simp only [List.mem_cons, List.not_mem_nil, or_false] at hc
    rcases hc with rfl | rfl | rfl <;> exact trivia_cons (by decide) (by decide)

theorem atValueEnd (h : Closes s) : atValueEnd s = true := by
  cases s with
  | nil => rfl
  | cons c s =>
    have hc := h c rfl
    simp only [List.mem_cons, List.not_mem_nil, or_false] at hc
    rcases hc with rfl | rfl | rfl <;> rfl

end Closes

theorem Grammar.SpaceList.startsItem {levels : Nat} {s rest : List Char} {e : RawExpr}
    (h : SpaceList (Primary levels) s e rest) : StartsItem s := by
  obtain ⟨-, hfirst, -⟩ := h
  exact hfirst.startsItem

theorem Grammar.CommaList.startsItem {levels : Nat} {s rest : List Char} {e : RawExpr}
    (h : CommaList (Primary levels) s e rest) : StartsItem s := by
  obtain ⟨hfirst, -⟩ := h
  exact hfirst.startsItem

theorem spaceList_single {levels : Nat} {text : List Char} {e : RawExpr}
    (h : (Primary levels).Writes Follows text e) :
    (SpaceList (Primary levels)).Writes Closes text e := by
  intro s hs
  have hfirst := h s hs.follows
  exact .mk hfirst.startsItem.2 hfirst (.nil hs.trivia hs.atValueEnd)

-- ---------------------------------------------------------------------------
-- Joined items
-- ---------------------------------------------------------------------------

theorem toList_intercalate_cons (separator text : String) (texts : List String) :
    (String.intercalate separator (text :: texts)).toList =
      text.toList ++ texts.flatMap fun text => separator.toList ++ text.toList := by
  rw [String.toList_intercalate]
  induction texts generalizing text with
  | nil => simp
  | cons next texts ih => simpa [List.intercalate_cons_cons] using ih next

section
variable {levels : Nat} {α : Type} {text : α → List Char} {e : α → RawExpr} {first : α}
  {items : List α} {s : List Char}

theorem follows_joined (text : α → List Char) (items : List α) (hs : Closes s) :
    Follows (items.flatMap (fun item => ' ' :: text item) ++ s) := by
  cases items with
  | nil => exact hs.follows
  | cons => exact .cons (by decide) _

theorem closes_joined (text : α → List Char) (items : List α) (hs : Closes s) :
    Closes (items.flatMap (fun item => ',' :: ' ' :: text item) ++ s) := by
  cases items with
  | nil => exact hs
  | cons => exact .comma _

theorem spaceItems_joined
    (h : ∀ item ∈ items, (Primary levels).Writes Follows (text item) (e item)) (hs : Closes s) :
    SpaceItems (Primary levels) (items.flatMap (fun item => ' ' :: text item) ++ s)
      (items.map e) s := by
  induction items with
  | nil => exact .nil hs.trivia hs.atValueEnd
  | cons item items ih =>
    rw [List.forall_mem_cons] at h
    have hitem := h.1 _ (follows_joined text items hs)
    rw [List.flatMap_cons, List.append_assoc, List.cons_append]
    exact .cons (.blank rfl (.done hitem.startsItem.1)) hitem.startsItem.2 hitem (ih h.2)

theorem spaceList_joined
    (h : ∀ item ∈ first :: items, (Primary levels).Writes Follows (text item) (e item))
    (hne : items ≠ []) :
    (SpaceList (Primary levels)).Writes Closes
      (text first ++ items.flatMap fun item => ' ' :: text item)
      (.list ((first :: items).map e) .space) := by
  intro s hs
  rw [List.forall_mem_cons] at h
  have hfirst := h.1 _ (follows_joined text items hs)
  have hlist := SpaceList.mk hfirst.startsItem.2 hfirst (spaceItems_joined h.2 hs)
  rw [List.append_assoc]
  cases items with
  | nil => exact absurd rfl hne
  | cons => exact hlist

theorem commaItems_joined {atEnd : List Char → Bool} (hend : ∀ s, StartsItem s → atEnd s = false)
    (h : ∀ item ∈ items, (SpaceList (Primary levels)).Writes Closes (text item) (e item))
    (hne : items ≠ []) (hs : Closes s) (hcomma : s.head? ≠ some ',') :
    CommaItems (SpaceList (Primary levels)) atEnd
      (items.flatMap (fun item => ',' :: ' ' :: text item) ++ s) (some (items.map e)) s := by
  induction items with
  | nil => exact absurd rfl hne
  | cons item items ih =>
    rw [List.forall_mem_cons] at h
    have hmore : ∃ es, es.getD [] = items.map e ∧ CommaItems (SpaceList (Primary levels)) atEnd
        (items.flatMap (fun item => ',' :: ' ' :: text item) ++ s) es s := by
      cases items with
      | nil => exact ⟨none, rfl, .none hs.trivia hcomma⟩
      | cons => exact ⟨_, rfl, ih h.2 (by simp)⟩
    obtain ⟨es, hes, hmore⟩ := hmore
    have hitem := h.1 _ (closes_joined text items hs)
    have hstart := hitem.startsItem
    rw [List.flatMap_cons, List.append_assoc, List.cons_append, List.map_cons, ← hes]
    exact .cons (trivia_cons rfl (by decide)) (.blank rfl (.done hstart.1)) (hend _ hstart) hitem
      hmore

def entryText (text : α → List Char) (entry : α × α) : List Char :=
  text entry.1 ++ ':' :: ' ' :: text entry.2

def WritesEntry (levels : Nat) (text : α → List Char) (e : α → RawExpr) (entry : α × α) : Prop :=
  (SpaceList (Primary levels)).Writes Closes (text entry.1) (e entry.1) ∧
    (SpaceList (Primary levels)).Writes Closes (text entry.2) (e entry.2)

theorem WritesEntry.reads {entry : α × α} (h : WritesEntry levels text e entry) (hs : Closes s) :
    ∃ t, SpaceList (Primary levels) (entryText text entry ++ s) (e entry.1) (':' :: t) ∧
      EntryValue (SpaceList (Primary levels)) (':' :: t) (e entry.2) s := by
  have hvalue := h.2 s hs
  have hstart := hvalue.startsItem
  refine ⟨' ' :: (text entry.2 ++ s), ?_,
    .mk (trivia_cons rfl (by decide)) (.blank rfl (.done hstart.1)) hvalue⟩
  rw [entryText, List.append_assoc]
  exact h.1 _ (.colon _)

variable {entry : α × α} {entries : List (α × α)}

theorem mapItems_joined (h : ∀ entry ∈ entries, WritesEntry levels text e entry) (hs : Closes s)
    (hcomma : s.head? ≠ some ',') :
    MapItems (SpaceList (Primary levels))
      (entries.flatMap (fun entry => ',' :: ' ' :: entryText text entry) ++ s)
      (entries.map fun entry => (e entry.1, e entry.2)) s := by
  induction entries with
  | nil => exact .none hs.trivia hcomma
  | cons entry entries ih =>
    rw [List.forall_mem_cons] at h
    obtain ⟨t, hkey, hvalue⟩ := h.1.reads (closes_joined (entryText text) entries hs)
    have hstart := hkey.startsItem
    rw [List.flatMap_cons, List.append_assoc, List.cons_append]
    exact .cons (trivia_cons rfl (by decide)) (.blank rfl (.done hstart.1)) hstart.atClose hkey
      hvalue (ih h.2)

-- ---------------------------------------------------------------------------
-- Groups
-- ---------------------------------------------------------------------------

theorem group_single {text : List Char} {e : RawExpr}
    (h : (SpaceList (Primary levels)).Writes Closes text e) (s : List Char) :
    Group (SpaceList (Primary levels)) ('(' :: (text ++ ')' :: s)) e s := by
  have hcloses := Closes.close s
  have hfirst := h _ hcloses
  have hstart := hfirst.startsItem
  exact .full (.done hstart.1) hstart.atClose hfirst
    (.list hcloses.trivia (by simp) (.none hcloses.trivia (by simp)))

theorem group_commas
    (h : ∀ item ∈ first :: items, (SpaceList (Primary levels)).Writes Closes (text item) (e item))
    (hne : items ≠ []) (s : List Char) :
    Group (SpaceList (Primary levels))
      ('(' :: (text first ++ (items.flatMap (fun item => ',' :: ' ' :: text item) ++ ')' :: s)))
      (.list ((first :: items).map e) .comma) s := by
  rw [List.forall_mem_cons] at h
  have hcloses := Closes.close s
  have hmore := commaItems_joined (fun _ => StartsItem.atClose) h.2 hne hcloses (by simp)
  have hfirst := h.1 _ (closes_joined text items hcloses)
  have hstart := hfirst.startsItem
  refine .full (.done hstart.1) hstart.atClose hfirst
    (.list (closes_joined text items hcloses).trivia ?_ hmore)
  cases items with
  | nil => exact absurd rfl hne
  | cons => simp

theorem group_map (h : ∀ entry' ∈ entry :: entries, WritesEntry levels text e entry')
    (s : List Char) :
    Group (SpaceList (Primary levels))
      ('(' :: (entryText text entry ++
        (entries.flatMap (fun entry => ',' :: ' ' :: entryText text entry) ++ ')' :: s)))
      (.map ((entry :: entries).map fun entry => (e entry.1, e entry.2))) s := by
  rw [List.forall_mem_cons] at h
  have hcloses := Closes.close s
  obtain ⟨t, hkey, hvalue⟩ := h.1.reads (closes_joined (entryText text) entries hcloses)
  have hstart := hkey.startsItem
  exact .full (.done hstart.1) hstart.atClose hkey
    (.map (trivia_cons rfl (by decide)) hvalue (mapItems_joined h.2 hcloses (by simp)))

end

end HostSheet
