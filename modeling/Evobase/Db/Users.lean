import Evobase.Core.Auth

/-!
# The table of users

The rows of `auth.users` have different ids and different usernames. A statement may fail before it
has run, and an insert may also have run when its answer is lost.
-/

namespace Evobase

open Foundation

/-- How a statement fares with the database. -/
inductive Fault where
  | none
  | refused (message : String)
  | lost (message : String)

/-- What a statement that returns rows answers. -/
def Fault.answer {α : Type} (fault : Fault) (rows : α) : AppResult α :=
  match fault with
  | .none => .ok rows
  | .refused message | .lost message => .error (.database message)

section Users

variable {U : Type} [DecidableEq U]

/-- The constraints of the table. -/
structure UsersTable (U : Type) where
  rows : List (UserRecord U)
  ids : (rows.map (·.id)).Nodup
  usernames : (rows.map (·.username)).Nodup

namespace UsersTable

def empty : UsersTable U := ⟨[], List.nodup_nil, List.nodup_nil⟩

/-- The insert of `create_user`, when it violates no constraint. -/
def insert? (table : UsersTable U) (row : UserRecord U) : Option (UsersTable U) :=
  if h : row.id ∉ table.rows.map (·.id) ∧ row.username ∉ table.rows.map (·.username) then
    some ⟨table.rows ++ [row],
      by rw [List.map_append]; exact List.Nodup.append table.ids (List.nodup_singleton _)
           (List.disjoint_singleton.2 h.1),
      by rw [List.map_append]; exact List.Nodup.append table.usernames (List.nodup_singleton _)
           (List.disjoint_singleton.2 h.2)⟩
  else none

def Taken (table : UsersTable U) (id : U) (username : String) : Prop :=
  id ∈ table.rows.map (·.id) ∨ username ∈ table.rows.map (·.username)

instance (table : UsersTable U) (id : U) (username : String) :
    Decidable (table.Taken id username) :=
  inferInstanceAs (Decidable (_ ∨ _))

theorem insert?_eq (table : UsersTable U) (row : UserRecord U) :
    (table.insert? row).map rows =
      if table.Taken row.id row.username then none else some (table.rows ++ [row]) := by
  unfold insert?
  split_ifs with hnew htaken htaken
  · exact absurd hnew (not_and_or.2 (htaken.imp not_not.2 not_not.2))
  · rfl
  · rfl
  · exact absurd (not_or.1 htaken) hnew

/-- The id is the default of its column; every violation of a constraint is answered as one of the
username. -/
def createUser (table : UsersTable U) (fault : Fault) (id : U) (username passwordHash : String) :
    AppResult (UserRecord U) × UsersTable U :=
  let row : UserRecord U := ⟨id, username, passwordHash⟩
  match fault with
  | .refused message => (.error (.database message), table)
  | _ =>
      match table.insert? row with
      | some table => (fault.answer row, table)
      | none =>
          (fault.answer () >>= fun _ => .error (.conflict "username is already registered"), table)

theorem createUser_of_taken {table : UsersTable U} {fault : Fault} {id : U} {username : String}
    (htaken : table.Taken id username) (hfault : ∀ message, fault ≠ .refused message)
    (passwordHash : String) : table.createUser fault id username passwordHash =
      (fault.answer () >>= fun _ => .error (.conflict "username is already registered"), table) := by
  have hinsert := table.insert?_eq ⟨id, username, passwordHash⟩
  rw [if_pos htaken, Option.map_eq_none_iff] at hinsert
  cases fault with
  | refused message => exact absurd rfl (hfault message)
  | none | lost message => simp only [createUser, hinsert]

theorem createUser_of_new {table : UsersTable U} {fault : Fault} {id : U} {username : String}
    (hnew : ¬ table.Taken id username) (hfault : ∀ message, fault ≠ .refused message)
    (passwordHash : String) :
    (table.createUser fault id username passwordHash).1 =
        fault.answer ⟨id, username, passwordHash⟩ ∧
      (table.createUser fault id username passwordHash).2.rows =
        table.rows ++ [⟨id, username, passwordHash⟩] := by
  have hinsert := table.insert?_eq ⟨id, username, passwordHash⟩
  rw [if_neg hnew, Option.map_eq_some_iff] at hinsert
  obtain ⟨next, hnext, hrows⟩ := hinsert
  cases fault with
  | refused message => exact absurd rfl (hfault message)
  | none | lost message => simp only [createUser, hnext, hrows, and_self]

def findUserByUsername (table : UsersTable U) (fault : Fault) (username : String) :
    AppResult (Option (UserRecord U)) :=
  fault.answer (table.rows.find? fun row => row.username = username)

def findUserById (table : UsersTable U) (fault : Fault) (id : U) :
    AppResult (Option (UserRecord U)) :=
  fault.answer (table.rows.find? fun row => row.id = id)

end UsersTable

end Users

end Evobase
