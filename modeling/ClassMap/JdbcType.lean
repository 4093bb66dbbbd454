import ClassMap.Text.Blank
import ClassMap.Text.Case

/-!
Column types, and the type a member is stored with when its tag names none.
-/

set_option autoImplicit false
set_option relaxedAutoImplicit false

namespace ClassMap

inductive JdbcType where
  | bit | tinyint | smallint | integer | bigint | real | float | double | numeric | decimal
  | char | varchar | longvarchar | date | time | timestamp | binary | varbinary | longvarbinary
  | clob | blob | array | struct | ref | boolean | datalink
deriving DecidableEq, Repr

namespace JdbcType

def name : JdbcType → String
  | bit => "BIT"
  | tinyint => "TINYINT"
  | smallint => "SMALLINT"
  | integer => "INTEGER"
  | bigint => "BIGINT"
  | real => "REAL"
  | float => "FLOAT"
  | double => "DOUBLE"
  | numeric => "NUMERIC"
  | decimal => "DECIMAL"
  | char => "CHAR"
  | varchar => "VARCHAR"
  | longvarchar => "LONGVARCHAR"
  | date => "DATE"
  | time => "TIME"
  | timestamp => "TIMESTAMP"
  | binary => "BINARY"
  | varbinary => "VARBINARY"
  | longvarbinary => "LONGVARBINARY"
  | clob => "CLOB"
  | blob => "BLOB"
  | array => "ARRAY"
  | struct => "STRUCT"
  | ref => "REF"
  | boolean => "BOOLEAN"
  | datalink => "DATALINK"

def all : List JdbcType :=
  [bit, tinyint, smallint, integer, bigint, real, float, double, numeric, decimal, char, varchar,
    longvarchar, date, time, timestamp, binary, varbinary, longvarbinary, clob, blob, array,
    struct, ref, boolean, datalink]

/-- The type of that name in any case, blanks around it aside. -/
def ofText? (s : String) : Option JdbcType :=
  let key := Text.upper (Text.trim s)
  all.find? (·.name == key)

/-- Types whose columns have a length. -/
def hasLength : JdbcType → Bool
  | char | varchar | longvarchar => true
  | _ => false

/-- Types whose columns have a precision and a scale. -/
def hasPrecision : JdbcType → Bool
  | decimal | numeric => true
  | _ => false

end JdbcType

/-- How a member is stored by default. -/
structure TypeMapping where
  jdbcType : JdbcType
  conversion : Option String := none
  length : Option UInt32 := none
deriving DecidableEq, Repr

namespace TypeMapping

def defaultLength : UInt32 := 254
def defaultPrecision : UInt32 := 20
def defaultScale : UInt32 := 0

def guidType := "org.apache.ojb.broker.util.GUID"
def guidConversion := "org.apache.ojb.broker.accesslayer.conversions.GUID2StringFieldConversion"
def objectConversion :=
  "org.apache.ojb.broker.accesslayer.conversions.Object2ByteArrFieldConversion"

/-- Types stored as they are, by every name they go by. -/
def plainTypes : List (JdbcType × List String) := [
  (.bit, ["boolean", "java.lang.Boolean", "Boolean"]),
  (.tinyint, ["byte", "java.lang.Byte", "Byte"]),
  (.smallint, ["short", "java.lang.Short", "Short"]),
  (.integer, ["int", "java.lang.Integer", "Integer"]),
  (.bigint, ["long", "java.lang.Long", "Long", "java.math.BigInteger"]),
  (.real, ["float", "java.lang.Float", "Float"]),
  (.float, ["double", "java.lang.Double", "Double"]),
  (.varchar, ["java.lang.String", "String"]),
  (.decimal, ["java.math.BigDecimal"]),
  (.varbinary, ["byte[]", "java.lang.Byte[]", "Byte[]"]),
  (.date, ["java.util.Date", "java.sql.Date"]),
  (.time, ["java.sql.Time"]),
  (.timestamp, ["java.sql.Timestamp", "java.util.Calendar", "java.util.GregorianCalendar"]),
  (.blob, ["java.sql.Blob"]),
  (.clob, ["java.sql.Clob"]),
  (.array, ["java.sql.Array"]),
  (.ref, ["java.sql.Ref"]),
  (.struct, ["java.sql.Struct"]),
  (.datalink, ["java.net.URL"])]

def characterTypes : List String :=
  ["char", "java.lang.Character", "Character"]

/-- The mapping of a declared type; a type that is not known is stored serialized, which takes a
conversion. -/
def ofType (type : String) : TypeMapping :=
  let name := Text.trim type
  match plainTypes.find? fun entry ↦ entry.2.contains name with
  | some entry => { jdbcType := entry.1 }
  | none =>
    if characterTypes.contains name then { jdbcType := .char, length := some 1 }
    else if name == guidType then { jdbcType := .varchar, conversion := some guidConversion }
    else { jdbcType := .longvarbinary, conversion := some objectConversion }

end TypeMapping

end ClassMap
