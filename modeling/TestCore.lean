import TestCore.Lib.CString
import TestCore.Lib.Run
import TestCore.Lib.Table
import TestCore.Lib.Path
import TestCore.Webs.Base
import TestCore.Webs.Session
import TestCore.Webs.Crypt
import TestCore.Webs.Params
import TestCore.Webs.State
import TestCore.Webs.Security
import TestCore.Webs.Url
import TestCore.Webs.Handler
import TestCore.Webs.Login
import TestCore.Webs.System
import TestCore.Webs.Lockout
import TestCore.Webs.SingleSession
import TestCore.Webs.Read
import TestCore.Webs.LockReport
import TestCore.Lib.Wire
import TestCore.Webs.SockClt
import TestCore.Webs.Reconnect
import TestCore.Lib.Chain
import TestCore.MsgQueue.Buffer
import TestCore.MsgQueue.Wakeup
import TestCore.Webs.Queue
import TestCore.MulTimer.Wheel
import TestCore.MulTimer.Reentrant
import TestCore.Webs.TxQueue
import TestCore.Uart.Frame
import TestCore.Lib.Decimal
import TestCore.Gps.Nmea
import TestCore.Gps.Scan
import TestCore.Gps.Rmc
import TestCore.Lib.Inet
import TestCore.Ipv4llg.Claims
import TestCore.Ipv4llg.Defend
import TestCore.Ipv4llg.Restart
import TestCore.Lib.Struct
import TestCore.HeadInfo.Header
import TestCore.Lib.Qsort
import TestCore.Webs.HandlerSort
import TestCore.Webs.Referer
import TestCore.Webs.Password
import TestCore.Lib.Shell
import TestCore.Lib.Search
import TestCore.Webs.Credentials
import TestCore.Webs.Samba
import TestCore.Webs.TnHandler
import TestCore.Webs.Format
import TestCore.Webs.Response
import TestCore.Webs.Routing
import TestCore.Lib.Loop
import TestCore.Webs.RecvSafety
import TestCore.Webs.Multipart
import TestCore.Webs.FormData
import TestCore.Lib.Strtol
import TestCore.Webs.RandomPassword
import TestCore.Ipv4llg.PickAddr
import TestCore.Ipv4llg.Options
import TestCore.Lib.Utf8
import TestCore.Webs.Unicode
import TestCore.Webs.RspParams
import TestCore.Webs.ConfRecords
import TestCore.Lib.BitWords
import TestCore.Webs.ReqConf
import TestCore.Lib.Tally
import TestCore.Webs.FormQuery
import TestCore.Webs.FormFields
import TestCore.Ipv4llg.PickUsable
import TestCore.MsgQueue.Deadline
import TestCore.Uart.Detect
import TestCore.Uart.Bounds
import TestCore.Uart.AdData
import TestCore.Lib.Crc
import TestCore.HeadInfo.Crc
import TestCore.Gps.Gate
import TestCore.Gps.Ends
import TestCore.LedCtrl.Patterns
import TestCore.Lib.Subnet
import TestCore.Lib.DottedQuad
import TestCore.Dhcp.Netmask
import TestCore.Dhcp.Range
import TestCore.Dhcp.IsIpv4
import TestCore.Lib.Memory
import TestCore.Lib.DnsWire
import TestCore.Webs.DnsAnswer
import TestCore.Webs.DnsBounds
import TestCore.ConnectDevice.DeviceList
import TestCore.ConnectDevice.StringFind
import TestCore.ConnectDevice.Leases
import TestCore.Gps.Number
import TestCore.Lib.Carry
import TestCore.Lib.Cells
import TestCore.Link.AddTwoNumbers
import TestCore.Gps.CommaPos
import TestCore.Lib.Ring
import TestCore.Lib.Mealy
import TestCore.Webs.RingQ
import TestCore.Webs.SockWrite
import TestCore.Webs.SockRead
import TestCore.Lib.Buckets
import TestCore.Webs.Sym
import TestCore.Lib.Blocks
import TestCore.Lib.Md5
import TestCore.Webs.Md5
