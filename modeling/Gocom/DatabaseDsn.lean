import Gocom.CaseConversions
import Gocom.TextCuts
import Gocom.UrlEncoding

/-!
# Database connection strings

A connection string is taken apart by one cut after the other, each at the first separator of its
kind. The thin form of Oracle is cut on its own before the rest of it goes to the parser of the
common form.
-/

namespace Gocom

open TextCuts UrlEncoding

/-! ## Options -/

inductive Engine where
  | mySQL | mssql | oracle | postgres | sqlite | tiDB | cockroachDB
  deriving DecidableEq

/-- The options that a connection string sets; an engine that is not set is none. -/
structure DBConnectionPoolOptions where
  engine : Option Engine := none
  dsn : Bytes := []
  host : Bytes := []
  port : ℤ := 0
  user : Bytes := []
  password : Bytes := []
  serviceName : Bytes := []
  serviceID : Bytes := []
  database : Bytes := []
  connectionParams : Option (GoMap Bytes Bytes) := none

/-! ## The common form -/

/-- The engines by the lower case of their schemes, with the default ports. -/
def schemes : List (Bytes × Engine × ℤ) :=
  [("sqlserver", .mssql, 1433), ("mysql", .mySQL, 3306), ("oracle", .oracle, 1521),
    ("postgres", .postgres, 5432), ("postgresql", .postgres, 5432), ("sqlite", .sqlite, 1000),
    ("file", .sqlite, 1000), ("tidb", .tiDB, 4000), ("cockroach", .cockroachDB, 26257),
    ("cockroachdb", .cockroachDB, 26257)].map fun s => (asciiBytes s.1, s.2)

namespace DBConnectionPoolOptions

def slash : UInt8 := 47

def colon : UInt8 := 58

def semicolon : UInt8 := 59

def questionMark : UInt8 := 63

def atSign : UInt8 := 64

def readAuth (o : DBConnectionPoolOptions) (text : Bytes) : DBConnectionPoolOptions × Bytes :=
  match splitN2 text atSign with
  | (hostText, none) => (o, hostText)
  | (auth, some hostText) =>
    let (user, password) := splitN2 auth colon
    ({ o with user, password := password.getD o.password }, hostText)

/-- The loop over the parameters; one without a value is empty. -/
def readParams (paramsText : Bytes) : GoMap Bytes Bytes :=
  (paramsText.splitOn UrlEncoding.ampersand).foldl
    (fun params paramsEle =>
      match splitN2 paramsEle equalsSign with
      | (name, some value) => params.store (urlDecode name) (urlDecode value)
      | (name, none) => params.store (urlDecode name) [])
    .empty

/-- The database behind a slash, with the parameters behind a question mark. -/
def readDatabase (o : DBConnectionPoolOptions) (text : Bytes) : DBConnectionPoolOptions :=
  match splitN2 text questionMark with
  | (_, none) => { o with database := trimRightSpaces text }
  | (database, some paramsText) =>
    { o with database := trimSpaces database, connectionParams := some (readParams paramsText) }

/-- The settings behind a semicolon, of which the first database name counts. -/
def readSettings (o : DBConnectionPoolOptions) (text : Bytes) : DBConnectionPoolOptions :=
  match (text.splitOn semicolon).findSome? fun s =>
      match splitN2 s equalsSign with
      | (name, some value) => if name = asciiBytes "DatabaseName" then some value else none
      | (_, none) => none with
  | some database => { o with database }
  | none => o

/-- What stands behind the host, and the host with its port. -/
def readHostText (o : DBConnectionPoolOptions) (hostText : Bytes) : DBConnectionPoolOptions × Bytes :=
  match splitN2 hostText slash with
  | (hostPart, some rest) => (o.readDatabase rest, hostPart)
  | (_, none) =>
    match splitN2 hostText semicolon with
    | (hostPart, some rest) => (o.readSettings rest, hostPart)
    | (_, none) => (o, hostText)

/-- What stands behind the port, a service and a database, and the port. -/
def readPortText (o : DBConnectionPoolOptions) (text : Bytes) : DBConnectionPoolOptions × Bytes :=
  match splitN2 text colon with
  | (portText, some rest) =>
    let (serviceID, database) := splitN2 rest slash
    ({ o with serviceID, database := database.getD o.database }, portText)
  | (_, none) =>
    match splitN2 text slash with
    | (portText, some database) => ({ o with database }, portText)
    | (_, none) => (o, text)

/-- A port that is no number leaves the default. -/
def readPort (o : DBConnectionPoolOptions) (text : Bytes) : DBConnectionPoolOptions :=
  let (o, portText) := o.readPortText text
  match parseInt portText with
  | (port, none) => { o with port }
  | (_, some _) => o

def readHost (o : DBConnectionPoolOptions) (text : Bytes) : DBConnectionPoolOptions :=
  match splitN2 text colon with
  | (host, none) => { o with host }
  | (host, some rest) => ({ o with host } : DBConnectionPoolOptions).readPort rest

/-- A database with a slash in it is a service and a database. -/
def readService (o : DBConnectionPoolOptions) : DBConnectionPoolOptions :=
  match o.database.splitOn slash with
  | serviceName :: database :: _ => { o with serviceName, database }
  | _ => o

def readAddress (o : DBConnectionPoolOptions) (text : Bytes) : DBConnectionPoolOptions :=
  let (o, hostText) := o.readAuth text
  let (o, hostPart) := ({ o with connectionParams := some .empty } : DBConnectionPoolOptions).readHostText hostText
  (o.readHost hostPart).readService

variable (l : UnicodeLower)

/-- The error, if there is one, and the options. -/
def parseCommonDSN (o : DBConnectionPoolOptions) (dsn : Bytes) : Option Bytes × DBConnectionPoolOptions :=
  match cutAt (asciiBytes "://") dsn with
  | (_, none) =>
    (some (asciiBytes "Parsing database connection string:" ++ dsn ++
      asciiBytes " with invalid format"), o)
  | (scheme, some text) =>
    match schemes.lookup (toLower l scheme) with
    | none =>
      (some (asciiBytes "Parsing database connection string:" ++ dsn ++
        asciiBytes " while could not get connection schema"), o)
    | some (engine, port) =>
      let o := { o with engine := some engine, port }
      if engine = .sqlite then (none, if o.host = [] then { o with host := text } else o)
      else (none, o.readAddress text)

/-! ## The thin form of Oracle -/

def isParamByte (b : UInt8) : Bool := isAlphanumeric b || b = underscore || b = 46

/-- The first value in brackets of a parameter with one of the names. -/
def paramValue (p : UInt8 → Bool) (names : List Bytes) : Bytes → Option Bytes
  | [] => none
  | c :: s =>
    let value := names.findSome? fun name =>
      let opening := asciiBytes "(" ++ name ++ asciiBytes "="
      let rest := (c :: s).drop opening.length
      if opening <+: c :: s ∧ rest.takeWhile p ≠ [] ∧ (rest.dropWhile p).head? = some 41 then
        some (rest.takeWhile p)
      else none
    value.or (paramValue p names s)

def thinPrefix : Bytes := asciiBytes "oracle:thin:"

/-- The user and the password before the address. -/
def readThinUser (o : DBConnectionPoolOptions) (dsn : Bytes) : DBConnectionPoolOptions × Bytes :=
  let slices := if Contains dsn (asciiBytes "//") then cutAt (asciiBytes "//") dsn else splitN2 dsn atSign
  let auth := splitN2 slices.1 slash
  let auth := if atSign ∈ auth.1 then splitN2 auth.1 atSign else auth
  let auth := if colon ∈ auth.1 then splitN2 auth.1 colon else auth
  ({ o with user := urlDecode auth.1, password := (auth.2.map urlDecode).getD o.password },
    slices.2.getD dsn)

/-- The parameters of a description. -/
def readDescription (o : DBConnectionPoolOptions) (dsn : Bytes) : DBConnectionPoolOptions :=
  let value (p : UInt8 → Bool) (names : List String) := paramValue p (names.map asciiBytes) dsn
  { o with
    host := (value isParamByte ["host", "HOST"]).getD o.host
    port := ((value isDigit ["port", "PORT"]).map fun text => (parseInt text).1).getD o.port
    serviceName := (value isParamByte ["service_name", "SERVICE_NAME"]).getD o.serviceName
    serviceID := (value isParamByte ["sid_name", "SID_NAME"]).getD o.serviceID
    database := (value isParamByte ["instance_name", "INSTANCE_NAME"]).getD o.database }

def parseThin (o : DBConnectionPoolOptions) (dsn : Bytes) : Option Bytes × DBConnectionPoolOptions :=
  let (o, dsn) :=
    if ¬ asciiBytes "@" <+: dsn ∧ ¬ asciiBytes "//" <+: dsn then o.readThinUser dsn else (o, dsn)
  if ¬ asciiBytes "(" <+: dsn ∧ ¬ asciiBytes "@(" <+: dsn then o.parseCommonDSN l dsn
  else (none, o.readDescription dsn)

def withoutJdbc (dsn : Bytes) : Bytes := if asciiBytes "jdbc:" <+: dsn then dsn.drop 5 else dsn

def parseDSN (o : DBConnectionPoolOptions) : Option Bytes × DBConnectionPoolOptions :=
  if o.dsn = [] then (none, o)
  else
    let dsn := withoutJdbc o.dsn
    if thinPrefix <+: dsn then
      parseThin l { o with engine := some .oracle, port := 1521 } (dsn.drop thinPrefix.length)
    else o.parseCommonDSN l dsn

end DBConnectionPoolOptions
end Gocom
