import DocTables.Json.Text
import DocTables.Codec

/-! Why a store refuses a call, and what it says then. -/
namespace DocTables

/-- What is wrong with a filter. -/
inductive FilterError where
  | noProperty (filter : Json)
  | noType (property : String)
  | noConditions (property : String)
  | unknownCondition (name : String)

inductive StoreError where
  | injected (message : String)
  | sourceNotFound (id : String)
  | collectionNotFound (id : String)
  | recordNotFound (id : String)
  | badCursor (cursor : String)
  | badFilter (why : FilterError)
  | noDataSource (database : String)
  | badStatus (path status body : String)
  | badBody (path : String)
  | noResponse

namespace FilterError

def message : FilterError → String
  | noProperty filter => "filter is missing " ++ ticked "property" ++ ": " ++ filter.text
  | noType property => "filter on " ++ ticked property ++ " names no property type"
  | noConditions property => "filter on " ++ ticked property ++ " has no condition object"
  | unknownCondition name => "unsupported filter condition " ++ ticked name

end FilterError

namespace StoreError

def message : StoreError → String
  | injected message => message
  | sourceNotFound id => "data source " ++ ticked id ++ " not found"
  | collectionNotFound id => "collection " ++ ticked id ++ " not found"
  | recordNotFound id => "record " ++ ticked id ++ " not found"
  | badCursor cursor => "invalid start_cursor " ++ ticked cursor
  | badFilter why => why.message
  | noDataSource database => "database " ++ ticked database ++ " has no data source"
  | badStatus path status body => path ++ " returned " ++ status ++ ": " ++ body
  | badBody path => "invalid response body from " ++ path
  | noResponse => "request failed"

end StoreError
end DocTables
