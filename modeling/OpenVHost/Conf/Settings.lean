/-
# The web server settings

The values of the settings form that reach the main configuration, each with
the range its parser keeps it in.
-/

import OpenVHost.Text.Utf8

namespace OpenVHost.Conf

/-- A number as it is printed. -/
def decimal (n : Nat) : List Char := Nat.toDigits 10 n

structure WorkerConnections where
  get : Nat
  bounds : 1 ≤ get ∧ get ≤ 65535
  deriving DecidableEq, Repr

structure Seconds where
  get : Nat
  bounds : 1 ≤ get ∧ get ≤ 86400
  deriving DecidableEq, Repr

structure GzipLevel where
  get : Nat
  bounds : 1 ≤ get ∧ get ≤ 9
  deriving DecidableEq, Repr

structure OnOff where
  isOn : Bool
  deriving DecidableEq, Repr

def OnOff.asStr (o : OnOff) : List Char := if o.isOn then "on".toList else "off".toList

structure WebServerSettings where
  workerConnections : WorkerConnections
  clientMaxBodySize : List Char
  keepaliveTimeout : Seconds
  tcpNodelay : OnOff
  fastcgiConnectTimeout : Seconds
  fastcgiSendTimeout : Seconds
  fastcgiReadTimeout : Seconds
  gzip : OnOff
  gzipCompLevel : GzipLevel
  gzipTypes : List (List Char)
  deriving DecidableEq, Repr

/-- The types as one directive value. -/
def asDirective (types : List (List Char)) : List Char := [' '].intercalate types

def uncheckedDefaults : WebServerSettings where
  workerConnections := ⟨1024, by decide⟩
  clientMaxBodySize := "256m".toList
  keepaliveTimeout := ⟨65, by decide⟩
  tcpNodelay := ⟨true⟩
  fastcgiConnectTimeout := ⟨60, by decide⟩
  fastcgiSendTimeout := ⟨300, by decide⟩
  fastcgiReadTimeout := ⟨300, by decide⟩
  gzip := ⟨false⟩
  gzipCompLevel := ⟨1, by decide⟩
  gzipTypes :=
    ["text/plain", "text/css", "application/json", "application/javascript", "application/xml",
      "image/svg+xml", "font/woff2"].map String.toList

end OpenVHost.Conf
