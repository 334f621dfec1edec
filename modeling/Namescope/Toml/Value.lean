/-!
# Values of a configuration

The tables of a configuration and how they grow. A table knows how it came about, since that decides
what may still be added to it.
-/
namespace Namescope.Toml

/-- How a table came about: written out in braces, implied by the header of a table below it, by a dotted
key, or by a header of its own. -/
inductive Origin where
  | braces | implied | dotted | headed
  deriving DecidableEq

/-- A value. Numbers and dates that nobody asks for stay as they are written. -/
inductive Value where
  | string (text : String)
  | integer (value : Int)
  | float (text : String)
  | bool (value : Bool)
  | date (text : String)
  | array (items : List Value)
  | table (origin : Origin) (entries : List (String × Value))
  | tables (items : List (List (String × Value)))

/-- Keys with their values, in the order in which they were added. -/
abbrev Entries := List (String × Value)

namespace Entries

/-- Gives a key a value, in place of the one that it has. -/
def put (key : String) (value : Value) : Entries → Entries
  | [] => [(key, value)]
  | (other, old) :: rest =>
    if other = key then (key, value) :: rest else (other, old) :: put key value rest

/-- Replaces the last of some tables. -/
def editLast (edit : Entries → Option Entries) : List Entries → Option (List Entries)
  | [] => none
  | [last] => do return [← edit last]
  | first :: more => do return first :: (← editLast edit more)

/-- Adds a value under a dotted key, whose first parts name tables. Such a table must come from a dotted
key too; one that a header implies can only be passed through. A key that has a value keeps it. -/
def assign : List String → Value → Entries → Option Entries
  | [], _, _ => none
  | [key], value, entries =>
    if (entries.lookup key).isNone then some (entries.put key value) else none
  | key :: more, value, entries =>
    let passing := more.length ≠ 1
    entries.put key <$>
      match entries.lookup key with
      | none => Value.table .dotted <$> assign more value []
      | some (.table .dotted sub) => Value.table .dotted <$> assign more value sub
      | some (.table .implied sub) =>
        if passing then Value.table .implied <$> assign more value sub else none
      | some (.tables items) =>
        if passing then Value.tables <$> editLast (assign more value) items else none
      | _ => none

/-- Changes what stands at the end of a path of tables; those that are missing are implied. Of several
tables under one key the last is meant. -/
def alter (edit : Option Value → Option Value) : List String → Entries → Option Entries
  | [], _ => none
  | [key], entries => entries.put key <$> edit (entries.lookup key)
  | key :: more, entries =>
    entries.put key <$>
      match entries.lookup key with
      | none => Value.table .implied <$> alter edit more []
      | some (.table .braces _) => none
      | some (.table origin sub) => Value.table origin <$> alter edit more sub
      | some (.tables items) => Value.tables <$> editLast (alter edit more) items
      | _ => none

/-- Adds the entries of a table in braces. -/
def ofPairs (pairs : List (List String × Value)) : Option Entries :=
  pairs.foldlM (fun entries pair => assign pair.1 pair.2 entries) []

end Entries

end Namescope.Toml
