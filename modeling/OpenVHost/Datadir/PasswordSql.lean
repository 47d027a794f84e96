/-
# The scripts that set the root password

`alterUserSql` of MySQL and `rootPasswordSql` of MariaDB. Their first statement turns the
escapes with a backslash off, so that `Sql.statements` is how a server reads what follows.

* `scripts_carry_the_password` — the statements of both scripts are the same for every
  password, but for the literals after `IDENTIFIED BY`, which are the password.
-/

import OpenVHost.Datadir.Driver
import OpenVHost.Sql.Tokens

namespace OpenVHost.Datadir

open Sql (IsStatement Reader Token)

/-- `alter_user_sql` -/
def alterUserSql (pw : RootPassword) : List Char :=
  let escaped := Sql.escape '\'' pw.value
  List.flatten [
    "SET SESSION sql_mode='NO_BACKSLASH_ESCAPES';\n".toList,
    "ALTER USER 'root'@'localhost' IDENTIFIED BY '".toList ++ (escaped ++ "';\n".toList)]

/-- `root_password_sql` -/
def rootPasswordSql (pw : RootPassword) : List Char :=
  let escaped := Sql.escape '\'' pw.value
  List.flatten [
    "SET SESSION sql_mode='NO_BACKSLASH_ESCAPES';\n".toList,
    "ALTER USER 'root'@'localhost' IDENTIFIED BY '".toList ++ (escaped ++ "';\n".toList),
    "ALTER USER IF EXISTS 'root'@'127.0.0.1' IDENTIFIED BY '".toList ++
      (escaped ++ "';\n".toList),
    "ALTER USER IF EXISTS 'root'@'::1' IDENTIFIED BY '".toList ++ (escaped ++ "';\n".toList),
    "DELETE FROM mysql.global_priv ".toList ++
      "WHERE User='root' AND Host NOT IN ('localhost','127.0.0.1','::1');\n".toList,
    "DELETE FROM mysql.global_priv WHERE User='';\n".toList,
    "FLUSH PRIVILEGES;\n".toList]

/-! ### What a server reads -/

def words (ws : List String) : List Token := ws.map fun w => .word w.toList

/-- A name or a value that the script spells out. -/
def fixed (text : String) : Token := .literal text.toList

def setSqlMode : List Token :=
  words ["SET", "SESSION", "sql_mode"] ++ [.symbol '=', fixed "NO_BACKSLASH_ESCAPES"]

/-- `ALTER USER .. IDENTIFIED BY`, up to the literal. -/
def alterUserBy (clause : List String) (host : String) : List Token :=
  words ["ALTER", "USER"] ++ words clause ++ [fixed "root", .symbol '@', fixed host] ++
    words ["IDENTIFIED", "BY"]

def alterUser (clause : List String) (host : String) (password : Token) : List Token :=
  alterUserBy clause host ++ [password]

def deleteFrom (condition : List Token) : List Token :=
  words ["DELETE", "FROM", "mysql"] ++ [.symbol '.'] ++ words ["global_priv", "WHERE"] ++ condition

def userIs (user : String) : List Token := words ["User"] ++ [.symbol '=', fixed user]

def hostNotIn : List Token :=
  words ["Host", "NOT", "IN"] ++ [.symbol '(', fixed "localhost", .symbol ',', fixed "127.0.0.1",
    .symbol ',', fixed "::1", .symbol ')']

/-- The statements of `alterUserSql`; nothing is left after the last one. -/
def alterUserStatements (password : Token) : List (List Token) :=
  [setSqlMode, alterUser [] "localhost" password, []]

/-- The statements of `rootPasswordSql`; nothing is left after the last one. -/
def rootPasswordStatements (password : Token) : List (List Token) :=
  [setSqlMode, alterUser [] "localhost" password, alterUser ["IF", "EXISTS"] "127.0.0.1" password,
    alterUser ["IF", "EXISTS"] "::1" password,
    deleteFrom (userIs "root" ++ words ["AND"] ++ hostNotIn), deleteFrom (userIs ""),
    words ["FLUSH", "PRIVILEGES"], []]

theorem isStatement_setSqlMode :
    IsStatement "SET SESSION sql_mode='NO_BACKSLASH_ESCAPES';\n".toList setSqlMode where
  run_eq := by decide
  not_mem := by decide

theorem isStatement_deleteRoots :
    IsStatement ("DELETE FROM mysql.global_priv ".toList ++
        "WHERE User='root' AND Host NOT IN ('localhost','127.0.0.1','::1');\n".toList)
      (deleteFrom (userIs "root" ++ words ["AND"] ++ hostNotIn)) where
  run_eq := by decide +kernel
  not_mem := by decide

theorem isStatement_deleteAnonymous :
    IsStatement "DELETE FROM mysql.global_priv WHERE User='';\n".toList
      (deleteFrom (userIs "")) where
  run_eq := by decide
  not_mem := by decide

theorem isStatement_flush :
    IsStatement "FLUSH PRIVILEGES;\n".toList (words ["FLUSH", "PRIVILEGES"]) where
  run_eq := by decide
  not_mem := by decide

section Passwords

variable {clause : List String} {host : String} {before : List Char} (pw : RootPassword)

/-- An `ALTER USER` that is right up to its literal has the password for it. -/
theorem isStatement_alterUser
    (hbefore : Reader.run .between before = (.inside '\'' [], alterUserBy clause host))
    (hend : .symbol ';' ∉ alterUserBy clause host) :
    IsStatement (before ++ (Sql.escape '\'' pw.value ++ "';\n".toList))
      (alterUser clause host (.literal pw.value)) :=
  IsStatement.around hbefore hend (by decide) (by decide)

theorem isStatement_localhost :
    IsStatement ("ALTER USER 'root'@'localhost' IDENTIFIED BY '".toList ++
        (Sql.escape '\'' pw.value ++ "';\n".toList))
      (alterUser [] "localhost" (.literal pw.value)) :=
  isStatement_alterUser pw (by decide) (by decide)

theorem isStatement_ipv4 :
    IsStatement ("ALTER USER IF EXISTS 'root'@'127.0.0.1' IDENTIFIED BY '".toList ++
        (Sql.escape '\'' pw.value ++ "';\n".toList))
      (alterUser ["IF", "EXISTS"] "127.0.0.1" (.literal pw.value)) :=
  isStatement_alterUser pw (by decide) (by decide)

theorem isStatement_ipv6 :
    IsStatement ("ALTER USER IF EXISTS 'root'@'::1' IDENTIFIED BY '".toList ++
        (Sql.escape '\'' pw.value ++ "';\n".toList))
      (alterUser ["IF", "EXISTS"] "::1" (.literal pw.value)) :=
  isStatement_alterUser pw (by decide) (by decide)

/-- **The scripts carry the password and nothing else.** -/
theorem scripts_carry_the_password :
    Sql.statements (alterUserSql pw) = alterUserStatements (.literal pw.value) ∧
      Sql.statements (rootPasswordSql pw) = rootPasswordStatements (.literal pw.value) := by
  have hset := isStatement_setSqlMode
  have hlocalhost := isStatement_localhost pw
  constructor
  · exact Sql.statements_flatten (.cons hset (.cons hlocalhost .nil))
  · exact Sql.statements_flatten (.cons hset (.cons hlocalhost (.cons (isStatement_ipv4 pw)
      (.cons (isStatement_ipv6 pw) (.cons isStatement_deleteRoots
        (.cons isStatement_deleteAnonymous (.cons isStatement_flush .nil)))))))

end Passwords

end OpenVHost.Datadir
