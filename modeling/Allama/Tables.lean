import Mathlib.Data.List.Basic

/-! Tables of a workspace (`tables/enums.py`, `db/models.py`). -/
namespace Allama
namespace Tables

inductive SqlType
  | text
  | integer
  | numeric
  | date
  | boolean
  | timestamp
  | timestamptz
  | jsonb
  | uuid
  | select
  | multiSelect
deriving DecidableEq, Repr

structure Column where
  name : String
  type : SqlType
  options : Option (List String)
deriving DecidableEq

structure Table where
  name : String
  columns : List Column
deriving DecidableEq

end Tables
end Allama
