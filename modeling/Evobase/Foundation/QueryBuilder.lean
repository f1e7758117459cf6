import Mathlib.Data.List.Forall2
import Mathlib.Tactic

/-!
# Builders of statements

A builder keeps the text of a statement and the values bound in it. Text is pushed as it is; a
bound value leaves its number in the text. Two runs of a builder that push the same text give the
same statement, whatever values they bind, and a statement is assembled from the words, the
quoted names and the placeholders that were pushed.
-/

namespace Foundation

/-- The text of a statement so far, with the values bound in it. -/
structure QueryBuilder (β : Type) where
  sql : String
  arguments : List β

variable {α β : Type}

namespace QueryBuilder

def new (init : String) : QueryBuilder β := ⟨init, []⟩

def push (query : QueryBuilder β) (text : String) : QueryBuilder β :=
  { query with sql := query.sql ++ text }

def pushBind (query : QueryBuilder β) (value : β) : QueryBuilder β where
  sql := query.sql ++ ("$" ++ toString (query.arguments.length + 1))
  arguments := query.arguments ++ [value]

/-- Push for every element of a list, with a text between two of them. -/
def pushSeparated (query : QueryBuilder β) (separator : String)
    (pushItem : QueryBuilder β → α → QueryBuilder β) : List α → QueryBuilder β
  | [] => query
  | a :: rest => rest.foldl (fun query a => pushItem (query.push separator) a) (pushItem query a)

variable {query query' : QueryBuilder β} {separator : String}
  {pushItem pushItem' : QueryBuilder β → α → QueryBuilder β} {l l' : List α}

@[simp] theorem sql_push (text : String) : (query.push text).sql = query.sql ++ text := rfl

@[simp] theorem arguments_push (text : String) : (query.push text).arguments = query.arguments := rfl

@[simp] theorem sql_pushBind (value : β) :
    (query.pushBind value).sql = query.sql ++ ("$" ++ toString (query.arguments.length + 1)) := rfl

@[simp] theorem arguments_pushBind (value : β) :
    (query.pushBind value).arguments = query.arguments ++ [value] := rfl

theorem pushSeparated_induction {motive : QueryBuilder β → Prop} (hquery : motive query)
    (hseparator : ∀ query, motive query → motive (query.push separator))
    (hitem : ∀ a ∈ l, ∀ query, motive query → motive (pushItem query a)) :
    motive (query.pushSeparated separator pushItem l) := by
  cases l with
  | nil => exact hquery
  | cons a rest =>
      refine List.foldlRecOn rest _ (hitem a List.mem_cons_self query hquery) ?_
      intro query hmotive b hb
      exact hitem b (List.mem_cons_of_mem a hb) _ (hseparator query hmotive)

/-- When the push for an element appends a text, the pushes for a list append its texts with the
separator between them. -/
theorem exists_sql_pushSeparated {text : α → Nat → String}
    (hitem : ∀ (query : QueryBuilder β) a,
      (pushItem query a).sql = query.sql ++ text a query.arguments.length) (l : List α) :
    ∃ texts, (query.pushSeparated separator pushItem l).sql =
        query.sql ++ separator.intercalate texts ∧
      List.Forall₂ (fun a t => ∃ n, t = text a n) l texts := by
  have general : ∀ (rest : List α) (query : QueryBuilder β), ∃ texts : List String,
      (rest.foldl (fun query a => pushItem (query.push separator) a) query).sql =
        query.sql ++ String.join (texts.map (separator ++ ·)) ∧
      List.Forall₂ (fun a t => ∃ n, t = text a n) rest texts := by
    intro rest
    induction rest with
    | nil => exact fun query => ⟨[], by simp, .nil⟩
    | cons a rest ih =>
        intro query
        obtain ⟨texts, hsql, htexts⟩ := ih (pushItem (query.push separator) a)
        refine ⟨text a (query.push separator).arguments.length :: texts, ?_, .cons ⟨_, rfl⟩ htexts⟩
        rw [List.foldl_cons, hsql, hitem]
        simp [String.append_assoc]
  have hjoin : ∀ (t : String) (texts : List String),
      separator.intercalate (t :: texts) = t ++ String.join (texts.map (separator ++ ·)) := by
    intro t texts
    induction texts generalizing t with
    | nil => simp
    | cons u texts ih =>
        rw [String.intercalate_cons_cons, ih u]
        simp [String.append_assoc]
  cases l with
  | nil => exact ⟨[], by simp [pushSeparated], .nil⟩
  | cons a rest =>
      obtain ⟨texts, hsql, htexts⟩ := general rest (pushItem query a)
      refine ⟨text a query.arguments.length :: texts, ?_, .cons ⟨_, rfl⟩ htexts⟩
      rw [hjoin, pushSeparated, hsql, hitem, String.append_assoc]

/-- The builders have the same text and as many values. -/
structure Alike (query query' : QueryBuilder β) : Prop where
  sql : query.sql = query'.sql
  arguments : query.arguments.length = query'.arguments.length

namespace Alike

@[refl] theorem refl (query : QueryBuilder β) : Alike query query := ⟨rfl, rfl⟩

theorem push (h : Alike query query') (text : String) : Alike (query.push text) (query'.push text) :=
  ⟨congrArg (· ++ text) h.sql, h.arguments⟩

theorem pushBind (h : Alike query query') (value value' : β) :
    Alike (query.pushBind value) (query'.pushBind value') :=
  ⟨by simp [h.sql, h.arguments], by simp [h.arguments]⟩

theorem pushSeparated (h : Alike query query') {R : α → α → Prop} (hl : List.Forall₂ R l l')
    (hitem : ∀ a a' query query', R a a' → Alike query query' →
      Alike (pushItem query a) (pushItem' query' a')) :
    Alike (query.pushSeparated separator pushItem l)
      (query'.pushSeparated separator pushItem' l') := by
  cases hl with
  | nil => exact h
  | cons hhead htail =>
      rename_i a a' rest rest'
      have general : ∀ query query' : QueryBuilder β, Alike query query' →
          Alike (rest.foldl (fun query a => pushItem (query.push separator) a) query)
            (rest'.foldl (fun query a => pushItem' (query.push separator) a) query') := by
        induction htail with
        | nil => exact fun _ _ h => h
        | cons hb _ ih =>
            exact fun query query' h => ih _ _ (hitem _ _ _ _ hb (h.push separator))
      exact general _ _ (hitem _ _ _ _ hhead h)

theorem pushSeparated_same (h : Alike query query') (l : List α)
    (hitem : ∀ a query query', Alike query query' → Alike (pushItem query a) (pushItem' query' a)) :
    Alike (query.pushSeparated separator pushItem l)
      (query'.pushSeparated separator pushItem' l) := by
  refine h.pushSeparated (List.forall₂_eq_eq_eq ▸ rfl : List.Forall₂ Eq l l) ?_
  intro a _ query query' ha halike
  subst ha
  exact hitem a query query' halike

end Alike

/-- A part of the text of a statement. -/
inductive Piece where
  | word (text : String)
  | name (text : String)
  | placeholder (number : Nat)
deriving DecidableEq

namespace Piece

/-- A name stands between double quotes. -/
def text : Piece → String
  | word text => text
  | name text => "\"" ++ text ++ "\""
  | placeholder number => "$" ++ toString number

def number : Piece → Option Nat
  | placeholder number => some number
  | _ => none

/-- The words are given, and the names are of the given kind. -/
def Admitted (words : List String) (Name : String → Prop) : Piece → Prop
  | word text => text ∈ words
  | name text => Name text
  | placeholder _ => True

end Piece

def textOf (pieces : List Piece) : String := .join (pieces.map Piece.text)

theorem textOf_append (pieces pieces' : List Piece) :
    textOf (pieces ++ pieces') = textOf pieces ++ textOf pieces' := by
  simp [textOf, String.join_append]

/-- The text of the builder is made of admitted pieces; its placeholders are numbered in order,
one for each value. -/
def Assembled (words : List String) (Name : String → Prop) (query : QueryBuilder β) : Prop :=
  ∃ pieces, query.sql = textOf pieces ∧ (∀ piece ∈ pieces, piece.Admitted words Name) ∧
    pieces.filterMap Piece.number = List.range' 1 query.arguments.length

namespace Assembled

variable {words : List String} {Name : String → Prop}

theorem mono {words' : List String} (h : Assembled words Name query) (hwords : words ⊆ words') :
    Assembled words' Name query := by
  obtain ⟨pieces, hsql, hpieces, hnumber⟩ := h
  refine ⟨pieces, hsql, fun piece hpiece => ?_, hnumber⟩
  have hadmitted := hpieces piece hpiece
  cases piece with
  | word text => exact hwords hadmitted
  | name text => exact hadmitted
  | placeholder number => trivial

theorem new {init : String} (h : init ∈ words) :
    Assembled words Name (QueryBuilder.new init : QueryBuilder β) :=
  ⟨[.word init], by simp [QueryBuilder.new, textOf, Piece.text], by simpa [Piece.Admitted] using h,
    rfl⟩

theorem pushPieces (h : Assembled words Name query) (pieces : List Piece)
    (hpieces : ∀ piece ∈ pieces, piece.Admitted words Name)
    (hnumbers : pieces.filterMap Piece.number = []) :
    Assembled words Name (query.push (textOf pieces)) := by
  obtain ⟨before, hsql, hbefore, hnumber⟩ := h
  refine ⟨before ++ pieces, by rw [sql_push, hsql, textOf_append], ?_, ?_⟩
  · intro piece hpiece
    exact (List.mem_append.1 hpiece).elim (hbefore piece) (hpieces piece)
  · rw [List.filterMap_append, hnumbers, List.append_nil, hnumber, arguments_push]

theorem pushWord (h : Assembled words Name query) {text : String} (htext : text ∈ words) :
    Assembled words Name (query.push text) := by
  have := h.pushPieces [.word text] (by simpa [Piece.Admitted] using htext) rfl
  simpa [textOf, Piece.text] using this

theorem pushName (h : Assembled words Name query) {text : String} (htext : Name text) :
    Assembled words Name (query.push ("\"" ++ text ++ "\"")) := by
  have := h.pushPieces [.name text] (by simpa [Piece.Admitted] using htext) rfl
  simpa [textOf, Piece.text] using this

theorem pushBind (h : Assembled words Name query) (value : β) :
    Assembled words Name (query.pushBind value) := by
  obtain ⟨pieces, hsql, hpieces, hnumber⟩ := h
  refine ⟨pieces ++ [.placeholder (query.arguments.length + 1)], ?_, ?_, ?_⟩
  · rw [sql_pushBind, hsql, textOf_append]
    simp [textOf, Piece.text]
  · intro piece hpiece
    rcases List.mem_append.1 hpiece with hpiece | hpiece
    · exact hpieces piece hpiece
    · obtain rfl := List.mem_singleton.1 hpiece
      trivial
  · rw [List.filterMap_append, hnumber]
    simp [Piece.number, List.range'_concat, Nat.add_comm]

end Assembled

end QueryBuilder

end Foundation
