import Allama.ColumnUpdates
import Allama.UpsertOrder

/-! Every careful run of the service leaves metadata that describes the physical tables. -/
namespace Allama
namespace TableDdl
open Mirrors Runs Tables
section CarefulRuns
variable {D T U S : Type} (p : RowPackages D T U S) (q : DdlPackages D T) (db : Database)
variable {p q db} in
theorem attempt_kept {refuses : Ddl → Bool} {catalog after : Catalog} {call : Call} (h : Kept p q db catalog)
    (hcareful : Careful p q db catalog (call,refuses)) (hok : attempt p q db refuses catalog call = .ok after) :
    Kept p q db after := by
  cases call with
  | createTable tableId name columns => exact createTable_kept h hcareful.1 hcareful.2 hok
  | updateTable tableId name => exact updateTable_kept h hcareful hok
  | deleteTable tableId => exact deleteTable_kept h hok
  | createColumn tableId columnId params => exact createColumn_kept h hcareful hok
  | updateColumn tableId columnId params => exact updateColumn_kept h hcareful hok
  | deleteColumn tableId columnId => exact deleteColumn_kept h hok

variable {p q db} in
theorem next_kept {catalog after : Catalog} {step : Call × (Ddl → Bool)} (h : Kept p q db catalog)
    (hcareful : Careful p q db catalog step) (hnext : next p q db catalog step = some after) : Kept p q db after := by
  rw [next] at hnext
  split at hnext
  · rename_i hok
    cases hnext
    exact attempt_kept h hcareful hok
  · cases hnext
    exact h

end CarefulRuns

/-- Characters of ASCII, and no literal of a list, a date or a time. -/
def asciiPackages : DdlPackages Unit Unit where
  isAlnum := Char.isAlphanum
  isAlpha := Char.isAlpha
  lower s := String.ofList (s.toList.map Char.toLower)
  dumps _ := "null"
  dateIsoformat _ := ""
  isoformat _ := ""

/-- Short names, whole literals, and a cast that keeps the text. -/
def shortDatabase : Database where
  identifier name := name
  isExpression _ := true
  castDefault _ _ text := some text
  otherwise _ _ := none

def createPlayers : Call × (Ddl → Bool) := (.createTable 1 "players" [(1,{ name := "wins", type := .integer })],fun _ => false)

def changeWins : Call × (Ddl → Bool) :=
  (.updateColumn 1 1 { name := some (some "losses"), nullable := some (some false) },fun _ => false)

theorem sanitary_players : Sanitary asciiPackages shortDatabase "players" := by
  intro sanitized h
  obtain rfl : "players" = sanitized := Except.ok.inj h
  exact ⟨rfl,rfl⟩

theorem careful_createPlayers (catalog : Catalog) :
    Careful integerPackages asciiPackages shortDatabase catalog createPlayers := by
  refine ⟨sanitary_players,?_⟩
  intro column hcolumn
  obtain rfl := List.mem_singleton.mp hcolumn
  constructor
  · intro sanitized h
    obtain rfl : "wins" = sanitized := Except.ok.inj h
    exact ⟨rfl,rfl⟩
  · intro text htext
    cases htext

theorem careful_changeWins (catalog : Catalog) : Careful integerPackages asciiPackages shortDatabase catalog changeWins := by
  intro table column _ _
  constructor
  · intro name hname
    obtain rfl : "losses" = name := Option.some.inj (Option.some.inj hname)
    exact ⟨rfl,rfl⟩
  · intro hname
    cases hname
  · intro hname
    cases hname
  · intro default hdefault
    cases hdefault
  · intro _ type htype
    cases htype

def nullabilityRun : List (Call × (Ddl → Bool)) :=
  [createPlayers,(.updateColumn 1 1 { nullable := some (some false) },fun _ => false)]

end TableDdl
end Allama
